import MetherCEX.Lib.Tally
import MetherCEX.P2P.Coherence

/-!
# Escrows that cannot be closed

An escrow is taken from the balance row of the chain of its token if that row has enough, and
rounded down to eight places.
-/

namespace MetherCEX

open Checks Decimal Run Table Tally List

def Escrow.lockedAmount (e : Escrow) : ℚ := if e.status = .locked then e.amount else 0

def P2POrder.openQuantity (o : P2POrder) : ℚ := if o.status.isTerminal then 0 else o.quantity

theorem numericColumn_nonneg {scale : ℕ} {x : ℚ} (hx : 0 ≤ x) : 0 ≤ numericColumn scale x := by
  have hscaled : 0 ≤ x * 10 ^ scale := mul_nonneg hx (pow_ten_pos scale).le
  apply div_nonneg
  · exact_mod_cast Int.floor_nonneg.mpr (by linarith : (0 : ℚ) ≤ x * 10 ^ scale + 1 / 2)
  · exact (pow_ten_pos scale).le

namespace P2PState

def lockedTotal (s : P2PState) (userId : UserId) (currencyId : CurrencyId) : ℚ :=
  tally (fun e : Escrow => (e.userId, e.currencyId)) Escrow.lockedAmount s.escrows
    (userId, currencyId)

def openTotal (s : P2PState) (adId : AdId) : ℚ :=
  tally P2POrder.adId P2POrder.openQuantity s.orders adId

section NewOrder

variable (cfg : P2PConfig) (adId : AdId) (ad : P2PAd) (buyerId sellerId : UserId) (quantity : ℚ)
  (escrowId : EscrowId) (now : ℕ)

theorem adId_newOrder :
    (newOrder cfg adId ad buyerId sellerId quantity escrowId now).adId = adId := rfl

end NewOrder

/-- An order that is not frozen can be ended by the call that is meant for its status. -/
def Closable (cfg : P2PConfig) (s : P2PState) : Prop :=
  ∀ (id : OrderId) (o : P2POrder) (e : Escrow), s.orders[id]? = some o →
    s.escrows[o.escrowId]? = some e → e.adminFrozen = false →
    (o.status = .paymentPending → ∀ userId, userId = o.buyerId ∨ userId = o.sellerId →
      (s.cancelOrder id userId).isOk = true) ∧
    (o.status = .paymentConfirmed → o.paymentVerificationStatus ≠ some .pending →
      o.paymentVerificationStatus ≠ some .rejected →
      ∀ now, (s.releaseCrypto cfg id o.sellerId false now).isOk = true) ∧
    (o.status = .disputed → ∃ i d, s.disputes[i]? = some d ∧ d.orderId = id ∧
      ∀ resolution, (s.resolveDispute i resolution).isOk = true)

/-- An order that is created takes its escrow from the global row, and its stored quantity is
not larger than the rounded amount. -/
def TakesGlobal (cfg : P2PConfig) (s : P2PState) : P2PAction → Prop
  | .createOrder _ userId adId quantity now =>
    (s.createOrder cfg userId adId quantity now).isOk = true →
      numericColumn cfg.quantityScale quantity ≤ toAmount quantity ∧
        ∀ ad ∈ s.ads[adId]?, ∀ currencyId ∈ cfg.currencyIdForToken ad.tokenId,
          s.lockChain cfg (ad.sellerFor userId) currencyId ad.tokenId (toAmount quantity) =
            chainIdGlobal
  | _ => True

instance (cfg : P2PConfig) (s : P2PState) (act : P2PAction) :
    Decidable (s.TakesGlobal cfg act) := by
  cases act <;> dsimp only [TakesGlobal] <;> infer_instance

structure Covered (s : P2PState) : Prop where
  available_nonneg : ∀ key, 0 ≤ (s.balances key).available
  escrow_nonneg : ∀ key, 0 ≤ (s.balances key).escrow
  amount_nonneg : ∀ e ∈ s.escrows, 0 ≤ e.amount
  locked : ∀ userId currencyId, s.lockedTotal userId currencyId ≤
    (s.balances ⟨userId, currencyId, chainIdGlobal⟩).escrow
  quantity : ∀ (id : OrderId) (o : P2POrder) (e : Escrow), s.orders[id]? = some o →
    s.escrows[id]? = some e → o.quantity ≤ e.amount
  quantity_nonneg : ∀ o ∈ s.orders, 0 ≤ o.quantity
  ad : ∀ o ∈ s.orders, ∃ ad, s.ads[o.adId]? = some ad ∧ 0 ≤ ad.availableAmount
  liquidity : ∀ (adId : AdId) (ad : P2PAd), s.ads[adId]? = some ad →
    ad.availableAmount + s.openTotal adId ≤ ad.totalAmount

namespace Covered

variable {s : P2PState}

theorem init (available : FundingKey → ℚ≥0) : (P2PState.init available).Covered where
  available_nonneg key := (available key).2
  escrow_nonneg _ := le_refl 0
  amount_nonneg := nofun
  locked _ _ := le_refl 0
  quantity _ _ _ hget := absurd hget (by simp [P2PState.init])
  quantity_nonneg := nofun
  ad := nofun
  liquidity _ _ hget := absurd hget (by simp [P2PState.init])

variable {o o' : P2POrder} {e : Escrow} {ad : P2PAd} {id : OrderId} {cfg : P2PConfig}

variable (h : s.Covered)

include h

theorem openQuantity_nonneg (ho : o ∈ s.orders) : 0 ≤ o.openQuantity := by
  rw [P2POrder.openQuantity]
  split_ifs
  · exact le_refl 0
  · exact h.quantity_nonneg o ho

theorem lockedAmount_nonneg (he : e ∈ s.escrows) : 0 ≤ e.lockedAmount := by
  rw [Escrow.lockedAmount]
  split_ifs
  · exact h.amount_nonneg e he
  · exact le_refl 0

theorem amount_le_escrow (he : e ∈ s.escrows) (hlocked : e.status = .locked) :
    e.amount ≤ (s.balances (globalKey e.userId e)).escrow := by
  have hle := value_le_tally (fun e : Escrow => (e.userId, e.currencyId))
    (fun _ hx _ => h.lockedAmount_nonneg hx) he rfl
  rw [Escrow.lockedAmount, if_pos hlocked] at hle
  exact hle.trans (h.locked e.userId e.currencyId)

theorem adCreated (had : ad.availableAmount = ad.totalAmount) :
    { s with ads := s.ads ++ [ad] }.Covered :=
  { h with
    ad := fun o ho => by
      obtain ⟨x, hx, hnonneg⟩ := h.ad o ho
      exact ⟨x, (getElem?_append_left (lt_length_of_getElem? hx)).trans hx, hnonneg⟩
    liquidity := fun j x hj => by
      rcases getElem?_concat_cases hj with ⟨rfl, rfl⟩ | ⟨-, hj⟩
      · -- no order names an advertisement that was not there
        have hnone : s.openTotal s.ads.length = 0 := by
          refine tally_eq_zero _ _ fun o ho heq => ?_
          obtain ⟨x, hx, -⟩ := h.ad o ho
          exact (lt_length_of_getElem? hx).ne heq
        change x.availableAmount + s.openTotal s.ads.length ≤ x.totalAmount
        rw [hnone, add_zero, had]
      · exact h.liquidity j x hj }

theorem adChanged {adId : AdId} {ad' : P2PAd} (hget : s.ads[adId]? = some ad)
    (havailable : ad'.availableAmount = ad.availableAmount)
    (htotal : ad'.totalAmount = ad.totalAmount) : { s with ads := s.ads.set adId ad' }.Covered :=
  { h with
    ad := fun o ho => by
      obtain ⟨x, hx, hnonneg⟩ := h.ad o ho
      by_cases heq : adId = o.adId
      · subst heq
        obtain rfl := Option.some.inj (hget.symm.trans hx)
        exact ⟨ad', getElem?_set_of_getElem? hget, havailable ▸ hnonneg⟩
      · exact ⟨x, (getElem?_set_ne heq).trans hx, hnonneg⟩
    liquidity := fun j x hj => by
      rcases getElem?_set_cases hj with ⟨rfl, rfl⟩ | ⟨-, hj⟩
      · rw [havailable, htotal]
        exact h.liquidity j ad hget
      · exact h.liquidity j x hj }

theorem setOrder (hget : s.orders[id]? = some o) (had : o'.adId = o.adId)
    (hquantity : o'.quantity = o.quantity) (hopen : o.status.isTerminal = false)
    (hopen' : o'.status.isTerminal = false) (ds : List P2PDispute) :
    { s with orders := s.orders.set id o', disputes := ds }.Covered :=
  { h with
    quantity := fun j x e hj he => by
      rcases getElem?_set_cases hj with ⟨rfl, rfl⟩ | ⟨-, hj⟩
      · exact hquantity ▸ h.quantity j o e hget he
      · exact h.quantity j x e hj he
    quantity_nonneg := forall_mem_set h.quantity_nonneg
      (hquantity ▸ h.quantity_nonneg o (mem_of_getElem? hget))
    ad := forall_mem_set h.ad (had ▸ h.ad o (mem_of_getElem? hget))
    liquidity := fun j ad hj => by
      have hsame : o'.openQuantity = o.openQuantity := by
        rw [P2POrder.openQuantity, P2POrder.openQuantity, hopen, hopen', hquantity]
      have htally := tally_set P2POrder.adId P2POrder.openQuantity hget o' j
      rw [had, hsame] at htally
      have hle := h.liquidity j ad hj
      rw [openTotal, ← add_right_cancel htally] at hle
      exact hle }

theorem froze {id : EscrowId} (hget : s.escrows[id]? = some e) (adminFrozen : Bool) :
    { s with escrows := s.escrows.set id { e with adminFrozen := adminFrozen } }.Covered :=
  { h with
    amount_nonneg := forall_mem_set h.amount_nonneg (h.amount_nonneg e (mem_of_getElem? hget))
    locked := fun userId currencyId => by
      have htally := tally_set (fun e : Escrow => (e.userId, e.currencyId)) Escrow.lockedAmount hget
        { e with adminFrozen := adminFrozen } (userId, currencyId)
      have hle := h.locked userId currencyId
      rw [lockedTotal, ← add_right_cancel htally] at hle
      exact hle
    quantity := fun j o x hj hx => by
      rcases getElem?_set_cases hx with ⟨rfl, rfl⟩ | ⟨-, hx⟩
      · exact h.quantity j o e hj hget
      · exact h.quantity j o x hj hx }

theorem other (key : FundingKey) (available : ℚ≥0) :
    { s with balances :=
      Function.update s.balances key ⟨available, (s.balances key).escrow⟩ }.Covered := by
  have hescrow : ∀ key', (Function.update s.balances key ⟨available, (s.balances key).escrow⟩
      key').escrow = (s.balances key').escrow := by
    intro key'
    by_cases heq : key' = key
    · subst heq
      rw [Function.update_self]
    · rw [Function.update_of_ne heq]
  exact
    { h with
      available_nonneg := fun key' => by
        by_cases heq : key' = key
        · subst heq
          simp only [Function.update_self]
          exact available.2
        · simpa only [Function.update_of_ne heq] using h.available_nonneg key'
      escrow_nonneg := fun key' => (h.escrow_nonneg key').trans_eq (hescrow key').symm
      locked := fun userId currencyId => (h.locked userId currencyId).trans_eq (hescrow _).symm }

omit h

theorem lockedTotal_closed {id : EscrowId} (he : s.escrows[id]? = some e)
    (hlocked : e.status = .locked) {status : EscrowStatus} (hclosed : status ≠ .locked)
    (userId : UserId) (currencyId : CurrencyId) :
    tally (fun e : Escrow => (e.userId, e.currencyId)) Escrow.lockedAmount
        (s.escrows.set id { e with status := status }) (userId, currencyId) =
      s.lockedTotal userId currencyId -
        if (⟨userId, currencyId, chainIdGlobal⟩ : FundingKey) = globalKey e.userId e then e.amount
        else 0 := by
  have htally := tally_set (fun e : Escrow => (e.userId, e.currencyId)) Escrow.lockedAmount he
    { e with status := status } (userId, currencyId)
  have hkey : ((⟨userId, currencyId, chainIdGlobal⟩ : FundingKey) = globalKey e.userId e) ↔
      (e.userId, e.currencyId) = (userId, currencyId) := by
    simp only [globalKey, FundingKey.mk.injEq, Prod.mk.injEq, and_true]
    exact and_congr eq_comm eq_comm
  simp only [Escrow.lockedAmount, hlocked, if_true, if_neg hclosed, ite_self, add_zero] at htally
  rw [lockedTotal, eq_sub_iff_add_eq, if_congr hkey rfl rfl]
  exact htally

theorem openTotal_ended (hget : s.orders[id]? = some o) (hopen : o.status.isTerminal = false)
    (hended : o'.status.isTerminal = true) (adId : AdId) : tally P2POrder.adId P2POrder.openQuantity
    (s.orders.set id o') adId = s.openTotal adId - if o.adId = adId then o.quantity else 0 := by
  have htally := tally_set P2POrder.adId P2POrder.openQuantity hget o' adId
  simp only [P2POrder.openQuantity, hopen, hended, if_true, ite_self, add_zero,
    Bool.false_eq_true, if_false] at htally
  rw [openTotal, eq_sub_iff_add_eq]
  exact htally

theorem closed (h : s.Covered) {out : Outcome} {ads : List P2PAd} (hget : s.orders[id]? = some o)
    (hopen : o.status.isTerminal = false) (he : s.escrows[id]? = some e)
    (hlocked : e.status = .locked) (hamount : toAmount e.amount = e.amount)
    (hfunds : toAmount e.amount ≤ (s.balances (globalKey e.userId e)).escrow)
    (hads : out.Restores s.ads o ads) (had : o'.adId = o.adId)
    (hquantity : o'.quantity = o.quantity) (hended : o'.status.isTerminal = true)
    (ds : List P2PDispute) :
    { s.closed id e out.escrowStatus (out.payee o) with
      orders := s.orders.set id o', ads := ads, disputes := ds }.Covered := by
  have hstatus : out.escrowStatus ≠ .locked := by
    cases out <;> decide
  have hmem := mem_of_getElem? hget
  have hq := h.quantity_nonneg o hmem
  have hamount_nonneg := h.amount_nonneg e (mem_of_getElem? he)
  constructor
  case available_nonneg =>
    intro key
    change 0 ≤ ((s.closed id e out.escrowStatus (out.payee o)).balances key).available
    rw [available_closed, hamount]
    have := h.available_nonneg key
    split_ifs <;> linarith
  case escrow_nonneg =>
    intro key
    change 0 ≤ ((s.closed id e out.escrowStatus (out.payee o)).balances key).escrow
    rw [escrow_closed]
    split_ifs with hkey
    · exact sub_nonneg.mpr (hkey ▸ hfunds)
    · exact (h.escrow_nonneg key).trans_eq (sub_zero _).symm
  case amount_nonneg => exact forall_mem_set h.amount_nonneg hamount_nonneg
  case locked =>
    intro userId currencyId
    change tally _ _ (s.escrows.set id { e with status := out.escrowStatus }) _ ≤
      ((s.closed id e out.escrowStatus (out.payee o)).balances _).escrow
    rw [lockedTotal_closed he hlocked hstatus, escrow_closed, hamount]
    exact sub_le_sub_right (h.locked userId currencyId) _
  case quantity =>
    intro j x y hj hy
    rcases getElem?_set_cases₂ hj hy with ⟨rfl, rfl, rfl⟩ | ⟨-, hj, hy⟩
    · exact hquantity ▸ h.quantity j o e hget he
    · exact h.quantity j x y hj hy
  case quantity_nonneg => exact forall_mem_set h.quantity_nonneg (hquantity ▸ hq)
  case ad =>
    intro x hx
    obtain ⟨ad, hget_ad, hnonneg⟩ := forall_mem_set h.ad (had ▸ h.ad o hmem) x hx
    cases hads with
    | unchanged => exact ⟨ad, hget_ad, hnonneg⟩
    | @restored ad' hget_ad' hle =>
      by_cases heq : o.adId = x.adId
      · rw [← heq] at hget_ad ⊢
        obtain rfl := Option.some.inj (hget_ad.symm.trans hget_ad')
        exact ⟨_, getElem?_set_of_getElem? hget_ad', add_nonneg hnonneg hq⟩
      · exact ⟨ad, (getElem?_set_ne heq).trans hget_ad, hnonneg⟩
  case liquidity =>
    intro j x hj
    change x.availableAmount + tally _ _ (s.orders.set id o') j ≤ x.totalAmount
    rw [openTotal_ended hget hopen hended]
    cases hads with
    | unchanged =>
      have hle := h.liquidity j x hj
      split_ifs <;> linarith
    | restored hget_ad hle =>
      rcases getElem?_set_cases hj with ⟨rfl, rfl⟩ | ⟨hne, hj⟩
      · have hle := h.liquidity o.adId _ hget_ad
        rw [if_pos rfl, P2PAd.restored]
        linarith
      · rw [if_neg (Ne.symm hne), sub_zero]
        exact h.liquidity j x hj

theorem created (h : s.Covered) {userId : UserId} {adId : AdId}
    {quantity : ℚ} {now : ℕ} {key : FundingKey} (hlength : s.escrows.length = s.orders.length)
    (had : s.ads[adId]? = some ad) (hquantity : 0 < quantity) (hle : quantity ≤ ad.availableAmount)
    (hkey : key.chainId = chainIdGlobal) (hfunds : toAmount quantity ≤ (s.balances key).available)
    (hcolumn : numericColumn cfg.quantityScale quantity ≤ toAmount quantity) :
    (s.created cfg userId adId ad quantity now key).Covered := by
  have hamount : 0 ≤ toAmount quantity := roundDown_nonneg hquantity.le
  have hstored : 0 ≤ numericColumn cfg.quantityScale quantity :=
    numericColumn_nonneg hquantity.le
  have hrest : 0 ≤ roundDown 8 (ad.availableAmount - quantity) :=
    roundDown_nonneg (sub_nonneg.mpr hle)
  constructor
  case available_nonneg =>
    intro key'
    change 0 ≤ ((s.escrowLocked key (toAmount quantity)).balances key').available
    rw [available_escrowLocked]
    split_ifs with heq
    · exact sub_nonneg.mpr (heq ▸ hfunds)
    · exact (h.available_nonneg key').trans_eq (sub_zero _).symm
  case escrow_nonneg =>
    intro key'
    change 0 ≤ ((s.escrowLocked key (toAmount quantity)).balances key').escrow
    rw [escrow_escrowLocked]
    have := h.escrow_nonneg key'
    split_ifs <;> linarith
  case amount_nonneg => exact forall_mem_concat h.amount_nonneg hamount
  case locked =>
    intro userId currencyId
    change tally _ _ (s.escrows ++ _) _ ≤
      ((s.escrowLocked key (toAmount quantity)).balances _).escrow
    rw [tally_append, escrow_escrowLocked]
    refine add_le_add (h.locked userId currencyId) (le_of_eq ?_)
    rw [tally_cons, tally_nil, add_zero]
    refine if_congr ?_ rfl rfl
    obtain ⟨keyUser, keyCurrency, keyChain⟩ := key
    obtain rfl : keyChain = chainIdGlobal := hkey
    simp only [Prod.mk.injEq, FundingKey.mk.injEq, and_true]
    exact and_congr eq_comm eq_comm
  case quantity =>
    intro j x y hj hy
    rcases getElem?_concat_cases₂ hlength hj hy with ⟨-, rfl, rfl⟩ | ⟨-, hj, hy⟩
    · exact hcolumn
    · exact h.quantity j x y hj hy
  case quantity_nonneg => exact forall_mem_concat h.quantity_nonneg hstored
  case ad =>
    intro x hx
    by_cases heq : adId = x.adId
    · rw [← heq]
      exact ⟨_, getElem?_set_of_getElem? had, hrest⟩
    · rcases mem_append.mp hx with hx | hx
      · obtain ⟨y, hy, hnonneg⟩ := h.ad x hx
        exact ⟨y, (getElem?_set_ne heq).trans hy, hnonneg⟩
      · exact absurd (congrArg P2POrder.adId (mem_singleton.mp hx)).symm heq
  case liquidity =>
    intro j x hj
    change x.availableAmount + tally _ _ (s.orders ++ _) j ≤ x.totalAmount
    rw [tally_append, tally_cons, tally_nil, add_zero]
    rcases getElem?_set_cases hj with ⟨rfl, rfl⟩ | ⟨hne, hj⟩
    · have hold := h.liquidity j ad had
      have hdown : roundDown 8 (ad.availableAmount - quantity) ≤ ad.availableAmount - quantity :=
        roundDown_le (sub_nonneg.mpr hle)
      have hcut : toAmount quantity ≤ quantity := roundDown_le hquantity.le
      rw [openTotal] at hold
      rw [adId_newOrder, if_pos rfl]
      change _ + (_ + numericColumn cfg.quantityScale quantity) ≤ _
      linarith
    · rw [adId_newOrder, if_neg (Ne.symm hne), add_zero]
      exact h.liquidity j x hj

theorem change (h : s.Covered) (hsound : s.Sound) {act : P2PAction} {s' : P2PState}
    (hchange : Change cfg s act s') (hok : (s.call cfg act).isOk = true)
    (htakes : s.TakesGlobal cfg act) : s'.Covered := by
  cases hchange with
  | same => exact h
  | adCreated had => exact h.adCreated had
  | adChanged hget havailable htotal => exact h.adChanged hget havailable htotal
  | other key available => exact h.other key available
  | froze adminFrozen hget => exact h.froze hget adminFrozen
  | @created refusal userId adId quantity now ad _ _ had hquantity hle hcurrency hkey hfunds =>
    have hcreated : (s.createOrder cfg userId adId quantity now).isOk = true := by
      cases refusal with
      | none => exact hok
      | some e => exact absurd hok Bool.false_ne_true
    obtain ⟨hcolumn, hglobal⟩ := htakes hcreated
    have hchain := hglobal ad had _ hcurrency
    exact h.created hsound.linked.length had hquantity hle (by rw [hkey, hchain]) hfunds hcolumn
  | confirmed at? v hget hstatus =>
    refine h.setOrder hget ?_ ?_ ?_ ?_ s.disputes
    · rfl
    · rfl
    · rcases hstatus with hstatus | hstatus <;> rw [hstatus] <;> rfl
    · rfl
  | disputed v hget hstatus =>
    refine h.setOrder hget ?_ ?_ ?_ ?_ _
    · rfl
    · rfl
    · rw [hstatus]
      rfl
    · rfl
  | @closed _ _ o e out _ _ v hget hopen he hfunds hads hends =>
    have hlocked := ((hsound.linked.agrees _ o e hget he).of_open hopen).1
    have hamount := hsound.linked.amount e (mem_of_getElem? he)
    refine h.closed hget hopen he hlocked hamount hfunds hads ?_ ?_ ?_ _
    · rfl
    · rfl
    · cases out <;> rfl

theorem step (h : s.Covered) (hsound : s.Sound) {act : P2PAction} (htakes : s.TakesGlobal cfg act) :
    (s.step cfg act).Covered := by
  have hchange := hsound.change cfg act
  unfold P2PState.step at hchange ⊢
  cases hcall : s.call cfg act with
  | error e => exact h
  | ok s' =>
    rw [hcall] at hchange
    exact h.change hsound hchange (by rw [hcall]; rfl) htakes

end Covered

section Succeed

variable {s : P2PState} (h : s.Covered) (hsound : s.Sound) {id : OrderId} {o : P2POrder}
  {e : Escrow} (hget : s.orders[id]? = some o) (he : s.escrows[id]? = some e)
  (hfrozen : e.adminFrozen = false)
include h hsound hget he hfrozen

theorem close_ok (hopen : o.status.isTerminal = false) (out : Outcome) :
    out.close s o = .ok (s.closed id e out.escrowStatus (out.payee o), false) := by
  have hmem := mem_of_getElem? he
  have hlocked := ((hsound.linked.agrees id o e hget he).of_open hopen).1
  have hamount := hsound.linked.amount e hmem
  have hfunds := h.amount_le_escrow hmem hlocked
  have hpositive := h.amount_nonneg e hmem
  refine (hsound.linked.close_eq_ok hget hopen he).mpr
    ⟨hfrozen, hamount.trans_le hfunds, h.available_nonneg _, ⟨?_, ?_⟩, rfl⟩
  · rw [available_closed, if_pos rfl, hamount]
    exact add_nonneg (h.available_nonneg _) hpositive
  · rw [escrow_closed, hamount]
    split_ifs with hkey
    · rw [hkey]
      exact sub_nonneg.mpr hfunds
    · exact (h.escrow_nonneg _).trans_eq (sub_zero _).symm

omit hsound he hfrozen in
theorem restores_ok (hopen : o.status.isTerminal = false) : ∃ ad, s.ads[o.adId]? = some ad ∧
    0 ≤ ad.availableAmount + o.quantity ∧ ad.availableAmount + o.quantity ≤ ad.totalAmount := by
  have hmem := mem_of_getElem? hget
  obtain ⟨ad, had, hnonneg⟩ := h.ad o hmem
  refine ⟨ad, had, add_nonneg hnonneg (h.quantity_nonneg o hmem), ?_⟩
  have hopenQuantity : o.openQuantity = o.quantity := by
    rw [P2POrder.openQuantity, hopen]
    rfl
  have hle : o.openQuantity ≤ s.openTotal o.adId :=
    value_le_tally P2POrder.adId (fun _ hx _ => h.openQuantity_nonneg hx) hmem rfl
  rw [hopenQuantity] at hle
  exact (add_le_add_right hle _).trans (h.liquidity o.adId ad had)

theorem cancelOrder_ok (hstatus : o.status = .paymentPending) {userId : UserId} (hparty : userId =
    o.buyerId ∨ userId = o.sellerId) : (s.cancelOrder id userId).isOk = true := by
  have hopen : o.status.isTerminal = false := by rw [hstatus]; rfl
  have hrefund : s.refundFromEscrow o.escrowId = _ :=
    close_ok h hsound hget he hfrozen hopen .refunded
  obtain ⟨ad, had, hnonneg, hle⟩ := restores_ok h hget hopen
  have hparty : ¬ (o.buyerId ≠ userId ∧ o.sellerId ≠ userId) := by
    rintro ⟨hbuyer, hseller⟩
    rcases hparty with rfl | rfl
    · exact hbuyer rfl
    · exact hseller rfl
  rw [cancelOrder, order, orRefuse_bind hget, if_neg (by rw [hstatus]; decide),
    refuseIf_bind (not_not.mpr hstatus), refuseIf_bind hparty, hrefund, ok_bind]
  simp only [Bool.false_eq_true, if_false, ads_closed]
  rw [orRefuse_bind had, refuseIf_bind hnonneg.not_gt,
    restoreLiquidity_eq_ok.mpr ⟨hle, rfl⟩, ok_bind]
  rfl

theorem releaseCrypto_ok (cfg : P2PConfig) (hstatus : o.status = .paymentConfirmed) (hpending :
    o.paymentVerificationStatus ≠ some .pending) (hrejected : o.paymentVerificationStatus ≠
    some .rejected) (now : ℕ) : (s.releaseCrypto cfg id o.sellerId false now).isOk = true := by
  have hopen : o.status.isTerminal = false := by rw [hstatus]; rfl
  have hlocked := ((hsound.linked.agrees id o e hget he).of_open hopen).1
  have hrelease : s.releaseFromEscrow o.escrowId o.buyerId = _ :=
    close_ok h hsound hget he hfrozen hopen .released
  have hescrow : s.escrows[o.escrowId]? = some e := (hsound.linked.escrowId id o hget).symm ▸ he
  have hverified : ¬ (false = false ∧ (o.paymentVerificationStatus = some .pending ∨
      o.paymentVerificationStatus = some .rejected)) :=
    fun hunverified => hunverified.2.elim hpending hrejected
  have hreleaser : checkReleaser cfg o o.sellerId false now = .ok () :=
    refuseIf_eq_ok.mpr (not_not.mpr rfl)
  rw [releaseCrypto, order, orRefuse_bind hget, hreleaser, ok_bind,
    if_neg (by rw [hstatus]; decide), refuseIf_bind (by rw [hstatus]; decide),
    refuseIf_bind (not_not.mpr hstatus), refuseIf_bind hverified, orRefuse_bind hescrow,
    refuseIf_bind (not_not.mpr hlocked),
    refuseIf_bind (h.quantity id o e hget he).not_gt, hrelease, ok_bind]
  rfl

theorem settleDispute_ok (hopen : o.status.isTerminal = false) (resolution : DisputeResolution) :
    ∃ s', s.settleDispute id o resolution = .ok s' := by
  have hrefund : s.refundFromEscrow o.escrowId = _ :=
    close_ok h hsound hget he hfrozen hopen .refunded
  have hrelease : s.releaseFromEscrow o.escrowId o.buyerId = _ :=
    close_ok h hsound hget he hfrozen hopen .released
  obtain ⟨ad, had, -, hle⟩ := restores_ok h hget hopen
  have hseller : ∃ s', s.settleDispute id o .favorSeller = .ok s' := by
    simp only [settleDispute, hrefund, ok_bind, Bool.false_eq_true, if_false, ads_closed, had,
      restoreLiquidity_eq_ok.mpr ⟨hle, rfl⟩]
    exact ⟨_, rfl⟩
  cases resolution with
  | favorBuyer =>
    rw [settleDispute, hrelease, ok_bind]
    exact ⟨_, rfl⟩
  | favorSeller | cancelled => exact hseller

theorem resolveDispute_ok (hstatus : o.status = .disputed) : ∃ i d, s.disputes[i]? = some d ∧
    d.orderId = id ∧ ∀ resolution, (s.resolveDispute i resolution).isOk = true := by
  obtain ⟨d, hd, hactive, rfl⟩ := hsound.disputesOpen.disputed id o hget hstatus
  obtain ⟨i, hi⟩ := getElem?_of_mem hd
  refine ⟨i, d, hi, rfl, fun resolution => ?_⟩
  have hopen : o.status.isTerminal = false := by rw [hstatus]; rfl
  obtain ⟨s', hs'⟩ := settleDispute_ok h hsound hget he hfrozen hopen resolution
  rw [resolveDispute, orRefuse_bind hi, refuseIf_bind (Bool.not_eq_false _ ▸ hactive), order,
    orRefuse_bind hget, hs', ok_bind]
  rfl

end Succeed

theorem Covered.closable {s : P2PState} (h : s.Covered) (hsound : s.Sound) (cfg : P2PConfig) :
    s.Closable cfg := by
  intro id o e hget he hfrozen
  rw [hsound.linked.escrowId id o hget] at he
  refine ⟨fun hstatus userId hparty => ?_, fun hstatus hpending hrejected now => ?_,
    fun hstatus => ?_⟩
  · exact cancelOrder_ok h hsound hget he hfrozen hstatus hparty
  · exact releaseCrypto_ok h hsound hget he hfrozen cfg hstatus hpending hrejected now
  · exact resolveDispute_ok h hsound hget he hfrozen hstatus

def twoTokens : P2PConfig where
  currencyIdForToken := some
  chainIdOfToken tokenId := if tokenId = 0 then "eth" else chainIdGlobal
  requirePaymentProof := false
  slaReleaseMinutes := 60
  quantityScale := 18

def fiveEach : FundingKey → ℚ≥0 := fun key => if key.userId = 1 then 5 else 0

/-- User `1` sells a token, user `2` orders the quantity. -/
def soldRun (tokenId : TokenId) (quantity : ℚ) : List P2PAction :=
  [.createAd none 1 .sell tokenId 1 5 5 15, .createOrder none 2 0 quantity 0]

def disputedRun : List P2PAction :=
  soldRun 0 2 ++ [.confirmPayment 0 2 ⟨false, 0⟩ 0, .openDispute 0 2]

def roundedRun : List P2PAction :=
  soldRun 1 (1 + 1 / 10 ^ 9) ++ [.confirmPayment 0 2 ⟨false, 0⟩ 0]

end P2PState

end MetherCEX
