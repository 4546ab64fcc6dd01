import MetherCEX.P2P.Stuck

/-!
# Advertisements are not oversold

What an advertisement has available is never negative, and together with the quantities of the
orders that were neither cancelled nor expired it is at most the total, so that no quantity is
refused when it is given back (`liquidity_not_oversold`).
-/

namespace MetherCEX

open Checks Decimal Run Table Tally List P2POrder

theorem onGrid_numericColumn (scale : ℕ) (x : ℚ) : OnGrid scale (numericColumn scale x) :=
  ⟨_, rfl⟩

theorem numericColumn_le {scale : ℕ} {x g : ℚ} (hg : OnGrid scale g) (h : x ≤ g) :
    numericColumn scale x ≤ g := by
  obtain ⟨n, rfl⟩ := hg
  have hscaled : x * 10 ^ scale ≤ n := (le_div_iff₀ (pow_ten_pos scale)).mp h
  rw [numericColumn, div_le_div_iff_of_pos_right (pow_ten_pos scale), Int.cast_le]
  calc ⌊x * 10 ^ scale + 1 / 2⌋ ≤ ⌊(n : ℚ) + 1 / 2⌋ := Int.floor_mono (by linarith)
    _ = n := floor_intCast_add_half n

theorem roundDown_add_numericColumn_le {scale : ℕ} (hscale : 8 ≤ scale) {available quantity : ℚ}
    (havailable : OnGrid scale available) (hle : quantity ≤ available) :
    roundDown 8 (available - quantity) + numericColumn scale quantity ≤ available := by
  have hrest : roundDown 8 (available - quantity) ≤ available - quantity :=
    roundDown_le (sub_nonneg.mpr hle)
  have htaken : OnGrid scale (available - roundDown 8 (available - quantity)) :=
    havailable.sub ((onGrid_roundDown 8 _).of_le hscale)
  have := numericColumn_le htaken (by linarith : quantity ≤ _)
  linarith

def P2POrder.takenQuantity (o : P2POrder) : ℚ :=
  if o.status = .cancelled ∨ o.status = .expired then 0 else o.quantity

theorem P2POrder.takenQuantity_of_open {o : P2POrder} (h : o.status.isTerminal = false) :
    o.takenQuantity = o.quantity := by
  rw [takenQuantity, if_neg]
  rintro (hstatus | hstatus) <;> rw [hstatus] at h <;> exact absurd h (by decide)

def P2PAd.Storable (cfg : P2PConfig) (ad : P2PAd) : Prop :=
  0 ≤ ad.totalAmount ∧ OnGrid cfg.quantityScale ad.totalAmount

def P2PError.IsLiquidity (e : P2PError) : Prop :=
  e = .message "Liquidity clamp violation: available_amount would be negative" ∨
    e = .message "Liquidity restoration would exceed ad total"

namespace P2PState

def takenTotal (s : P2PState) (adId : AdId) : ℚ :=
  tally P2POrder.adId P2POrder.takenQuantity s.orders adId

/-- The available amount and what was taken fit into the total. -/
structure Fits (cfg : P2PConfig) (ad : P2PAd) (taken : ℚ) : Prop where
  nonneg : 0 ≤ ad.availableAmount
  onGrid : OnGrid cfg.quantityScale ad.availableAmount
  le_total : ad.availableAmount + taken ≤ ad.totalAmount

structure Liquid (cfg : P2PConfig) (s : P2PState) : Prop where
  quantity : ∀ o ∈ s.orders, 0 ≤ o.quantity ∧ OnGrid cfg.quantityScale o.quantity
  adId_lt : ∀ o ∈ s.orders, o.adId < s.ads.length
  fits : ∀ (adId : AdId) (ad : P2PAd), s.ads[adId]? = some ad → ad.Storable cfg →
    Fits cfg ad (s.takenTotal adId)

namespace Liquid

variable {cfg : P2PConfig} {s : P2PState}

theorem init (available : FundingKey → ℚ≥0) : Liquid cfg (P2PState.init available) where
  quantity := nofun
  adId_lt := nofun
  fits _ _ hget := absurd hget (by simp [P2PState.init])

variable (h : Liquid cfg s)

include h

variable {ad : P2PAd} {adId : AdId} {o : P2POrder} {s' : P2PState}

theorem adCreated (had : ad.availableAmount = ad.totalAmount) :
    Liquid cfg { s with ads := s.ads ++ [ad] } where
  quantity := h.quantity
  adId_lt o ho := (h.adId_lt o ho).trans_le (by simp)
  fits j x hj hx := by
    rcases getElem?_concat_cases hj with ⟨rfl, rfl⟩ | ⟨-, hj⟩
    · have hnone : s.takenTotal s.ads.length = 0 :=
        tally_eq_zero _ _ fun o ho => (h.adId_lt o ho).ne
      refine ⟨had ▸ hx.1, had ▸ hx.2, ?_⟩
      change x.availableAmount + s.takenTotal s.ads.length ≤ x.totalAmount
      rw [hnone, add_zero, had]
    · exact h.fits j x hj hx

theorem adChanged {ad' : P2PAd} (hget : s.ads[adId]? = some ad)
    (havailable : ad'.availableAmount = ad.availableAmount)
    (htotal : ad'.totalAmount = ad.totalAmount) :
    Liquid cfg { s with ads := s.ads.set adId ad' } where
  quantity := h.quantity
  adId_lt o ho := (h.adId_lt o ho).trans_eq length_set.symm
  fits j x hj hx := by
    rcases getElem?_set_cases hj with ⟨rfl, rfl⟩ | ⟨-, hj⟩
    · obtain ⟨hnonneg, hgrid, hle⟩ := h.fits j ad hget ⟨htotal ▸ hx.1, htotal ▸ hx.2⟩
      exact ⟨havailable ▸ hnonneg, havailable ▸ hgrid, by rwa [havailable, htotal]⟩
    · exact h.fits j x hj hx

theorem created (hscale : 8 ≤ cfg.quantityScale) (userId : UserId) {quantity : ℚ} (now : ℕ)
    (key : FundingKey) (had : s.ads[adId]? = some ad) (hquantity : 0 < quantity)
    (hle : quantity ≤ ad.availableAmount) :
    Liquid cfg (s.created cfg userId adId ad quantity now key) where
  quantity :=
    forall_mem_concat h.quantity ⟨numericColumn_nonneg hquantity.le, onGrid_numericColumn _ _⟩
  adId_lt o ho := lt_of_lt_of_eq
    (forall_mem_concat h.adId_lt (lt_length_of_getElem? had) o ho) length_set.symm
  fits j x hj hx := by
    have htaken : (s.created cfg userId adId ad quantity now key).takenTotal j = s.takenTotal j +
        if adId = j then numericColumn cfg.quantityScale quantity else 0 := by
      refine (tally_append _ _ s.orders _ _).trans ?_
      rw [tally_cons, tally_nil, add_zero]
      rfl
    rw [htaken]
    rcases getElem?_set_cases hj with ⟨rfl, rfl⟩ | ⟨hne, hj⟩
    · obtain ⟨-, hgrid, htotal⟩ := h.fits j ad had hx
      have hcolumn := roundDown_add_numericColumn_le hscale hgrid hle
      rw [if_pos rfl]
      exact ⟨roundDown_nonneg (sub_nonneg.mpr hle), (onGrid_roundDown 8 _).of_le hscale,
        by dsimp only; linarith⟩
    · rw [if_neg (Ne.symm hne), add_zero]
      exact h.fits j x hj hx

theorem setOrder {id : OrderId} {o' : P2POrder} (hget : s.orders[id]? = some o)
    (horders : s'.orders = s.orders.set id o') (had : o'.adId = o.adId) (hquantity : o'.quantity =
    o.quantity) (hads : (s'.ads = s.ads ∧ o'.takenQuantity ≤ o.takenQuantity) ∨
    ∃ ad, s.ads[o.adId]? = some ad ∧ s'.ads = s.ads.set o.adId (ad.restored o.quantity) ∧
    o.takenQuantity = o.quantity ∧ o'.takenQuantity = 0) : Liquid cfg s' := by
  have hmem := mem_of_getElem? hget
  have hlength : s'.ads.length = s.ads.length := by
    rcases hads with ⟨hads, -⟩ | ⟨ad, -, hads, -⟩
    · rw [hads]
    · rw [hads, length_set]
  have htaken : ∀ j, s'.takenTotal j = s.takenTotal j +
      if o.adId = j then o'.takenQuantity - o.takenQuantity else 0 := by
    intro j
    have htally := tally_set adId takenQuantity hget o' j
    rw [had] at htally
    rw [takenTotal, takenTotal, horders]
    split_ifs at htally ⊢ <;> linarith
  constructor
  case quantity =>
    rw [horders]
    exact forall_mem_set h.quantity (hquantity ▸ h.quantity o hmem)
  case adId_lt =>
    rw [horders, hlength]
    exact forall_mem_set h.adId_lt (had ▸ h.adId_lt o hmem)
  case fits =>
    intro j x hj hx
    rw [htaken]
    rcases hads with ⟨hads, hle⟩ | ⟨ad, hgetAd, hads, hold, hnew⟩ <;> rw [hads] at hj
    · obtain ⟨hnonneg, hgrid, htotal⟩ := h.fits j x hj hx
      exact ⟨hnonneg, hgrid, by split_ifs <;> linarith⟩
    · rcases getElem?_set_cases hj with ⟨rfl, rfl⟩ | ⟨hne, hj⟩
      · obtain ⟨hnonneg, hgrid, htotal⟩ := h.fits _ ad hgetAd hx
        obtain ⟨hq, hqgrid⟩ := h.quantity o hmem
        rw [if_pos rfl, hold, hnew]
        exact ⟨add_nonneg hnonneg hq, hgrid.add hqgrid, by dsimp only [P2PAd.restored]; linarith⟩
      · rw [if_neg (Ne.symm hne), add_zero]
        exact h.fits j x hj hx

theorem change (hscale : 8 ≤ cfg.quantityScale) {act : P2PAction} (hchange : Change cfg s act s') :
    Liquid cfg s' := by
  cases hchange with
  | same => exact h
  | froze | other => exact { h with }
  | adCreated had => exact h.adCreated had
  | adChanged hget havailable htotal => exact h.adChanged hget havailable htotal
  | created had hquantity hle => exact h.created hscale _ _ _ had hquantity hle
  | @confirmed _ id o at? v hget hstatus =>
    refine h.setOrder hget rfl rfl rfl (.inl ⟨rfl, le_of_eq ?_⟩)
    rcases hstatus with hstatus | hstatus <;> simp [takenQuantity, hstatus]
  | @disputed _ id o v hget hstatus =>
    refine h.setOrder hget rfl rfl rfl (.inl ⟨rfl, le_of_eq ?_⟩)
    simp [takenQuantity, hstatus]
  | @closed _ id o e out _ _ v hget hopen he hfunds hads =>
    have htaken := takenQuantity_of_open hopen
    have hquantity := (h.quantity o (mem_of_getElem? hget)).1
    refine h.setOrder hget rfl rfl rfl ?_
    cases hads with
    | unchanged =>
      refine .inl ⟨rfl, ?_⟩
      rw [htaken, takenQuantity]
      split_ifs
      · exact hquantity
      · exact le_refl _
    | restored hgetAd => exact .inr ⟨_, hgetAd, rfl, htaken, if_pos (.inl rfl)⟩

theorem restorable (ho : o ∈ s.orders) (hopen : o.status.isTerminal = false)
    (had : s.ads[o.adId]? = some ad) (hstorable : ad.Storable cfg) :
    0 ≤ ad.availableAmount + o.quantity ∧ ad.availableAmount + o.quantity ≤ ad.totalAmount := by
  obtain ⟨hnonneg, -, hle⟩ := h.fits o.adId ad had hstorable
  have htaken : o.takenQuantity ≤ s.takenTotal o.adId := by
    refine value_le_tally adId (fun x hx _ => ?_) ho rfl
    rw [takenQuantity]
    split_ifs
    · exact le_refl 0
    · exact (h.quantity x hx).1
  rw [takenQuantity_of_open hopen] at htaken
  exact ⟨add_nonneg hnonneg (h.quantity o ho).1, by linarith⟩

end Liquid

theorem avoids_closeEscrow (s : P2PState) (operation : String) (escrowId : EscrowId)
    (status : EscrowStatus) (payee : Escrow → UserId) :
    Avoids P2PError.IsLiquidity (s.closeEscrow operation escrowId status payee) := by
  refine .bind (.orRefuse (by simp [P2PError.IsLiquidity])) fun e _ => ?_
  split
  · exact .pure _
  · refine .bind (.refuseIf fun _ => by simp [P2PError.IsLiquidity]) fun _ _ => ?_
    refine .bind ?_ fun s' _ => .bind ?_ fun _ _ => .pure _
    · refine .bind (.refuseIf fun _ => by simp [P2PError.IsLiquidity]) fun _ _ => ?_
      exact .bind (.refuseIf fun _ => by simp [P2PError.IsLiquidity]) fun _ _ => .pure _
    · exact .bind (.refuseIf fun _ => by simp [P2PError.IsLiquidity]) fun _ _ => .pure _

theorem refund_eq {s : P2PState} (hsound : s.Sound) {id : OrderId} {o : P2POrder}
    (hget : s.orders[id]? = some o) (hopen : o.status.isTerminal = false) {r : P2PState × Bool}
    (hrefund : s.refundFromEscrow o.escrowId = .ok r) :
    ∃ e, r = (s.closed id e .refunded o.sellerId, false) := by
  have hclose : Outcome.refunded.close s o = .ok r := hrefund
  obtain ⟨e, -, -, hr⟩ := hsound.linked.of_close hget hopen hclose
  exact ⟨e, hr⟩

section GivenBack

variable {cfg : P2PConfig} {s : P2PState} (h : Liquid cfg s) (hsound : s.Sound) {id : OrderId}
  {o : P2POrder} (hget : s.orders[id]? = some o) {ad : P2PAd} (had : s.ads[o.adId]? = some ad)
  (hstorable : ad.Storable cfg)
include h hsound hget had hstorable

theorem avoids_cancelOrder (userId : UserId) :
    Avoids P2PError.IsLiquidity (s.cancelOrder id userId) := by
  rw [cancelOrder, order, orRefuse_bind hget]
  split
  · exact .pure _
  refine .bind (.refuseIf fun _ => by simp [P2PError.IsLiquidity]) fun _ hpending => ?_
  have hopen : o.status.isTerminal = false := by
    rw [not_not.mp (refuseIf_eq_ok.mp hpending)]
    rfl
  obtain ⟨hnonneg, hle⟩ := h.restorable (mem_of_getElem? hget) hopen had hstorable
  refine .bind (.refuseIf fun _ => by simp [P2PError.IsLiquidity]) fun _ _ => ?_
  refine .bind (avoids_closeEscrow s _ _ _ _) fun r hrefund => ?_
  obtain ⟨e, rfl⟩ := refund_eq hsound hget hopen hrefund
  simp only [Bool.false_eq_true, if_false, ads_closed]
  rw [orRefuse_bind had, refuseIf_bind hnonneg.not_gt, restoreLiquidity_eq_ok.mpr ⟨hle, rfl⟩,
    ok_bind]
  exact .pure _

theorem avoids_resolveDispute {i : DisputeId} {d : P2PDispute}
    (hd : s.disputes[i]? = some d) (hid : d.orderId = id) (resolution : DisputeResolution) :
    Avoids P2PError.IsLiquidity (s.resolveDispute i resolution) := by
  rw [resolveDispute, orRefuse_bind hd]
  refine .bind (.refuseIf fun _ => by simp [P2PError.IsLiquidity]) fun _ hactive => ?_
  subst hid
  obtain ⟨x, hx, hdisputed⟩ := hsound.disputesOpen.active d (mem_of_getElem? hd)
    (Bool.not_eq_false _ ▸ refuseIf_eq_ok.mp hactive)
  obtain rfl := Option.some.inj (hget.symm.trans hx)
  have hopen : o.status.isTerminal = false := by
    rw [hdisputed]
    rfl
  obtain ⟨-, hle⟩ := h.restorable (mem_of_getElem? hget) hopen had hstorable
  have hrefunded : Avoids P2PError.IsLiquidity (s.settleDispute d.orderId o .favorSeller) := by
    refine .bind (avoids_closeEscrow s _ _ _ _) fun r hrefund => ?_
    obtain ⟨e, rfl⟩ := refund_eq hsound hget hopen hrefund
    simp only [Bool.false_eq_true, if_false, ads_closed, had,
      restoreLiquidity_eq_ok.mpr ⟨hle, rfl⟩, ok_bind]
    exact .pure _
  rw [order, orRefuse_bind hget]
  refine .bind ?_ fun _ _ => .pure _
  cases resolution with
  | favorBuyer => exact .bind (avoids_closeEscrow s _ _ _ _) fun _ _ => .pure _
  | favorSeller | cancelled => exact hrefunded

end GivenBack

theorem liquidity_not_oversold (cfg : P2PConfig) (hscale : 8 ≤ cfg.quantityScale)
    (available : FundingKey → ℚ≥0) (acts : List P2PAction) (adId : AdId) (ad : P2PAd) (hget : (run
    cfg available acts).ads[adId]? = some ad) (hstorable : ad.Storable cfg) : 0 ≤ ad.availableAmount
    ∧ ad.availableAmount + (run cfg available acts).takenTotal adId ≤ ad.totalAmount ∧
    ∀ (id : OrderId) (o : P2POrder), (run cfg available acts).orders[id]? = some o → o.adId = adId →
    (∀ userId, Avoids P2PError.IsLiquidity ((run cfg available acts).cancelOrder id userId)) ∧
    ∀ i d resolution, (run cfg available acts).disputes[i]? = some d → d.orderId = id →
    Avoids P2PError.IsLiquidity ((run cfg available acts).resolveDispute i resolution) := by
  have hsound := sound_run cfg available acts
  have hinv := ((along_of_forall (C := fun _ _ => True) (fun _ _ => trivial) _ acts).invariant
    (P := fun s => s.Sound ∧ Liquid cfg s) ⟨.init available, .init available⟩
    fun s act hs _ => ⟨hs.1.step cfg act, hs.2.change hscale (hs.1.change cfg act)⟩).2
  obtain ⟨hnonneg, -, hle⟩ := hinv.fits adId ad hget hstorable
  refine ⟨hnonneg, hle, fun id o ho hadId => ?_⟩
  subst hadId
  exact ⟨avoids_cancelOrder hinv hsound ho hget hstorable, fun i d resolution hd hid =>
    avoids_resolveDispute hinv hsound ho hget hstorable hd hid resolution⟩

/-- The quantity has nine places, so that the rest is rounded down. -/
theorem roundedRun_not_oversold : ∃ ad, (run twoTokens fiveEach roundedRun).ads[0]? = some ad ∧
    ad.availableAmount = 399999999 / 10 ^ 8 ∧
    (run twoTokens fiveEach roundedRun).takenTotal 0 = 1 + 1 / 10 ^ 9 ∧
    ad.availableAmount + (run twoTokens fiveEach roundedRun).takenTotal 0 ≤ ad.totalAmount := by
  have hget : (run twoTokens fiveEach roundedRun).ads[0]? =
      some ⟨1, .sell, 1, 1, 5, 399999999 / 10 ^ 8, 5, 15, .active⟩ := by
    decide +kernel
  have hstorable : P2PAd.Storable twoTokens
      ⟨1, .sell, 1, 1, 5, 399999999 / 10 ^ 8, 5, 15, .active⟩ :=
    ⟨by norm_num, 5 * 10 ^ 18, by norm_num [twoTokens]⟩
  exact ⟨_, hget, rfl, by decide +kernel, (liquidity_not_oversold twoTokens (by decide) fiveEach
    roundedRun 0 _ hget hstorable).2.1⟩

end P2PState

end MetherCEX
