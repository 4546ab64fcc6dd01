import MetherCEX.P2P.Stuck

/-!
# Escrows conserve funds

Whatever is called, and from whichever row an escrow is taken, what the users have in a currency
stays the same, the escrow balances of a seller are the amounts of the locked escrows, and no
balance is negative (`funds_conserved`).
-/

namespace MetherCEX

open Checks Decimal Run Tally

def P2PAction.IsP2P : P2PAction → Prop
  | .other _ _ => False
  | _ => True

instance : DecidablePred P2PAction.IsP2P
  | .other .. => .isFalse id
  | .createAd .. | .updateAd .. | .cancelAd .. | .createOrder .. | .confirmPayment ..
  | .sellerVerifyPayment .. | .releaseCrypto .. | .cancelOrder .. | .openDispute ..
  | .resolveDispute .. | .freezeEscrow .. | .unfreezeEscrow .. | .expire .. => .isTrue trivial

namespace P2PState

noncomputable def fundsIn (s : P2PState) (currencyId : CurrencyId) : ℚ :=
  ∑ᶠ key ∈ {key : FundingKey | key.currencyId = currencyId},
    ((s.balances key).available + (s.balances key).escrow)

noncomputable def escrowIn (s : P2PState) (userId : UserId) (currencyId : CurrencyId) : ℚ :=
  ∑ᶠ key ∈ {key : FundingKey | key.userId = userId ∧ key.currencyId = currencyId},
    (s.balances key).escrow

structure Conserved (funds : CurrencyId → ℚ) (s : P2PState) : Prop where
  available_nonneg : ∀ key, 0 ≤ (s.balances key).available
  escrow_nonneg : ∀ key, 0 ≤ (s.balances key).escrow
  amount_nonneg : ∀ e ∈ s.escrows, 0 ≤ e.amount
  available_finite : (fun key => (s.balances key).available).HasFiniteSupport
  escrow_finite : (fun key => (s.balances key).escrow).HasFiniteSupport
  funds : ∀ currencyId, s.fundsIn currencyId = funds currencyId
  locked : ∀ userId currencyId, s.escrowIn userId currencyId = s.lockedTotal userId currencyId

namespace Conserved

variable {funds : CurrencyId → ℚ} {s s' : P2PState}

theorem init {available : FundingKey → ℚ≥0} (hfinite : available.HasFiniteSupport) :
    Conserved (P2PState.init available).fundsIn (P2PState.init available) where
  available_nonneg key := (available key).2
  escrow_nonneg _ := le_refl 0
  amount_nonneg := nofun
  available_finite := hfinite.fun_comp NNRat.cast_zero
  escrow_finite := Function.hasFiniteSupport_zero
  funds _ := rfl
  locked _ _ := finsum_mem_zero _

variable (h : Conserved funds s)

include h

theorem congr (hbalances : s'.balances = s.balances) (hamount : ∀ e ∈ s'.escrows, 0 ≤ e.amount)
    (hlocked : ∀ userId currencyId,
      s'.lockedTotal userId currencyId = s.lockedTotal userId currencyId) :
    Conserved funds s' where
  available_nonneg := hbalances ▸ h.available_nonneg
  escrow_nonneg := hbalances ▸ h.escrow_nonneg
  amount_nonneg := hamount
  available_finite := hbalances ▸ h.available_finite
  escrow_finite := hbalances ▸ h.escrow_finite
  funds currencyId := by
    rw [fundsIn, hbalances]
    exact h.funds currencyId
  locked userId currencyId := by
    rw [escrowIn, hbalances, hlocked]
    exact h.locked userId currencyId

theorem moved (from? to? : FundingKey) (amount : ℚ)
    (hcurrency : from?.currencyId = to?.currencyId)
    (havailable : ∀ key, (s'.balances key).available =
      (s.balances key).available + if key = from? then -amount else 0)
    (hescrow : ∀ key, (s'.balances key).escrow =
      (s.balances key).escrow + if key = to? then amount else 0)
    (hfrom : 0 ≤ (s.balances from?).available - amount)
    (hto : 0 ≤ (s.balances to?).escrow + amount) (hamount : ∀ e ∈ s'.escrows, 0 ≤ e.amount)
    (hlocked : ∀ userId currencyId, s'.lockedTotal userId currencyId =
      s.lockedTotal userId currencyId +
        if to?.userId = userId ∧ to?.currencyId = currencyId then amount else 0) :
    Conserved funds s' where
  available_nonneg key := by
    rw [havailable]
    split_ifs with hkey
    · rwa [hkey, ← sub_eq_add_neg]
    · exact (h.available_nonneg key).trans_eq (add_zero _).symm
  escrow_nonneg key := by
    rw [hescrow]
    split_ifs with hkey
    · rwa [hkey]
    · exact (h.escrow_nonneg key).trans_eq (add_zero _).symm
  amount_nonneg := hamount
  available_finite := by
    simp only [havailable]
    exact hasFiniteSupport_add_single h.available_finite from? (-amount)
  escrow_finite := by
    simp only [hescrow]
    exact hasFiniteSupport_add_single h.escrow_finite to? amount
  funds currencyId := by
    have hsum :
        (fun key => (s.balances key).available + (s.balances key).escrow).HasFiniteSupport :=
      h.available_finite.add h.escrow_finite
    have hrow : ∀ key, (s'.balances key).available + (s'.balances key).escrow =
        ((s.balances key).available + (s.balances key).escrow +
          if key = from? then -amount else 0) + if key = to? then amount else 0 := by
      intro key
      rw [havailable, hescrow]
      ring
    rw [← h.funds, fundsIn, fundsIn]
    simp only [hrow]
    rw [finsum_mem_add_single (hasFiniteSupport_add_single hsum from? (-amount)),
      finsum_mem_add_single hsum]
    simp only [Set.mem_ofPred_eq, hcurrency]
    split_ifs
    · exact neg_add_cancel_right _ _
    · rw [add_zero, add_zero]
  locked userId currencyId := by
    rw [hlocked, ← h.locked, escrowIn, escrowIn]
    simp only [hescrow]
    exact finsum_mem_add_single h.escrow_finite to? amount

theorem created (cfg : P2PConfig) (userId : UserId) (adId : AdId) (ad : P2PAd) {quantity : ℚ} (now :
    ℕ) {key : FundingKey} (hquantity : 0 < quantity) (hfunds : toAmount quantity ≤ (s.balances
    key).available) : Conserved funds (s.created cfg userId adId ad quantity now key) := by
  have hamount : 0 ≤ toAmount quantity := roundDown_nonneg hquantity.le
  refine h.moved key key (toAmount quantity) rfl
    (fun key' => ?_) (fun key' => ?_) (sub_nonneg.mpr hfunds)
    (add_nonneg (h.escrow_nonneg key) hamount) (fun e he => ?_) fun userId currencyId => ?_
  · refine (available_escrowLocked s key _ key').trans ?_
    split_ifs
    · exact sub_eq_add_neg _ _
    · rw [sub_zero, add_zero]
  · exact escrow_escrowLocked s key _ key'
  · rcases List.mem_append.mp he with he | he
    · exact h.amount_nonneg e he
    · rw [List.mem_singleton.mp he]
      exact hamount
  · refine (tally_append _ _ s.escrows _ _).trans ?_
    rw [tally_cons, tally_nil, add_zero, lockedTotal]
    simp only [Prod.mk.injEq]
    rfl

theorem closed {id : EscrowId} {e : Escrow} {status : EscrowStatus} (payee : UserId)
    (he : s.escrows[id]? = some e) (hlocked : e.status = .locked) (hclosed : status ≠ .locked)
    (hamount : toAmount e.amount = e.amount) (hfunds : toAmount e.amount ≤
    (s.balances (globalKey e.userId e)).escrow) : Conserved funds (s.closed id e status payee) := by
  have hnonneg := h.amount_nonneg e (List.mem_of_getElem? he)
  rw [hamount] at hfunds
  refine h.moved (globalKey payee e) (globalKey e.userId e) (-e.amount) rfl
    (fun key => ?_) (fun key => ?_) ?_ ?_ (fun x hx => ?_) fun userId currencyId => ?_
  · rw [available_closed, hamount, neg_neg]
  · rw [escrow_closed, hamount]
    split_ifs
    · exact sub_eq_add_neg _ _
    · rw [sub_zero, add_zero]
  · rw [sub_neg_eq_add]
    exact add_nonneg (h.available_nonneg _) hnonneg
  · rw [← sub_eq_add_neg]
    exact sub_nonneg.mpr hfunds
  · rcases List.mem_or_eq_of_mem_set hx with hx | rfl
    · exact h.amount_nonneg x hx
    · exact hnonneg
  · refine (Covered.lockedTotal_closed he hlocked hclosed userId currencyId).trans ?_
    have hkey : (⟨userId, currencyId, chainIdGlobal⟩ : FundingKey) = globalKey e.userId e ↔
        (globalKey e.userId e).userId = userId ∧
          (globalKey e.userId e).currencyId = currencyId := by
      simp only [globalKey, FundingKey.mk.injEq, and_true]
      exact and_congr eq_comm eq_comm
    rw [if_congr hkey rfl rfl]
    split_ifs
    · exact sub_eq_add_neg _ _
    · rw [sub_zero, add_zero]

theorem change (hsound : s.Sound) {cfg : P2PConfig} {act : P2PAction} (hact : act.IsP2P)
    (hchange : Change cfg s act s') : Conserved funds s' := by
  cases hchange with
  | same => exact h
  | adCreated | adChanged | confirmed | disputed =>
    exact h.congr rfl h.amount_nonneg fun _ _ => rfl
  | other => exact hact.elim
  | @froze _ _ e adminFrozen hget =>
    refine h.congr rfl (fun x hx => ?_) fun userId currencyId => ?_
    · rcases List.mem_or_eq_of_mem_set hx with hx | rfl
      · exact h.amount_nonneg x hx
      · exact h.amount_nonneg e (List.mem_of_getElem? hget)
    · exact add_right_cancel (tally_set (fun e : Escrow => (e.userId, e.currencyId))
        Escrow.lockedAmount hget _ (userId, currencyId))
  | created had hquantity hle hcurrency hkey hfunds =>
    exact h.created cfg _ _ _ _ hquantity hfunds
  | @closed _ _ o e out _ _ v hget hopen he hfunds hads hends =>
    have hlocked := ((hsound.linked.agrees _ o e hget he).of_open hopen).1
    have hamount := hsound.linked.amount e (List.mem_of_getElem? he)
    have hstatus : out.escrowStatus ≠ .locked := by
      cases out <;> decide
    have hclosed := h.closed (out.payee o) he hlocked hstatus hamount hfunds
    exact hclosed.congr rfl hclosed.amount_nonneg fun _ _ => rfl

end Conserved

theorem funds_conserved (cfg : P2PConfig) (available : FundingKey → ℚ≥0) (hfinite :
    available.HasFiniteSupport) (acts : List P2PAction) (hacts : ∀ act ∈ acts, act.IsP2P) :
    (∀ currencyId, (run cfg available acts).fundsIn currencyId = (init available).fundsIn
    currencyId) ∧ (∀ sellerId currencyId, (run cfg available acts).escrowIn sellerId currencyId =
    (run cfg available acts).lockedTotal sellerId currencyId) ∧ ∀ key, 0 ≤ ((run cfg available
    acts).balances key).available ∧ 0 ≤ ((run cfg available acts).balances key).escrow := by
  have halong : Along (step cfg) (fun _ act => act.IsP2P) (init available) acts :=
    along_of_forall_mem (fun act hact _ => hacts act hact) _
  have hinv := (halong.invariant
    (P := fun s => s.Sound ∧ Conserved (init available).fundsIn s)
    ⟨.init available, .init hfinite⟩
    fun s act hs hact => ⟨hs.1.step cfg act, hs.2.change hs.1 hact (hs.1.change cfg act)⟩).2
  exact ⟨hinv.funds, hinv.locked, fun key => ⟨hinv.available_nonneg key, hinv.escrow_nonneg key⟩⟩

/-- User `1` has `5` of every token, in the row of its chain and in the global row. -/
def fiveOfTwo : FundingKey → ℚ≥0 := fun key =>
  if key ∈ [⟨1, 0, "eth"⟩, ⟨1, 0, chainIdGlobal⟩, ⟨1, 1, chainIdGlobal⟩] then fiveEach key else 0

theorem fiveOfTwo_finite : fiveOfTwo.HasFiniteSupport :=
  (List.finite_toSet [⟨1, 0, "eth"⟩, ⟨1, 0, chainIdGlobal⟩, ⟨1, 1, chainIdGlobal⟩]).subset
    fun key hkey => by
      by_contra hne
      exact hkey (if_neg hne)

def releasedRun : List P2PAction :=
  soldRun 0 2 ++ [.createAd none 1 .sell 1 1 5 5 15, .createOrder none 2 1 3 0,
    .confirmPayment 1 2 ⟨false, 0⟩ 0, .releaseCrypto 1 1 false 0]

theorem releasedRun_conserved : (run twoTokens fiveOfTwo releasedRun).orders.map P2POrder.status =
    [.paymentPending, .completed] ∧ (run twoTokens fiveOfTwo releasedRun).fundsIn 1 =
    (init fiveOfTwo).fundsIn 1 ∧ (run twoTokens fiveOfTwo releasedRun).escrowIn 1 0 = 2 := by
  obtain ⟨hfunds, hescrow, -⟩ := funds_conserved twoTokens fiveOfTwo fiveOfTwo_finite releasedRun
    (by decide)
  exact ⟨by decide +kernel, hfunds 1, (hescrow 1 0).trans (by decide +kernel)⟩

end P2PState

end MetherCEX
