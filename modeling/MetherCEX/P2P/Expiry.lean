import MetherCEX.P2P.Stuck

/-!
# The expiry of unpaid orders

`processExpiredP2POrders` looks for orders in a status that no order has (`text_ne_expiryStatus`),
so an unpaid order that is not cancelled keeps its escrow locked.
-/

namespace MetherCEX

open Table List

namespace P2PState

/-- The orders that the job selects: the first hundred by the time of their expiry. -/
def expiredOrders (s : P2PState) (now : ℕ) : List OrderId :=
  (((s.orders.zipIdx.filter fun x => x.1.status.text = expiryStatus ∧ x.1.expiresAt < now)
    |>.insertionSort fun x y => x.1.expiresAt ≤ y.1.expiresAt).take 100).map (·.2)

/-- A run of the job that gets its lock. An order whose transaction fails is left for the next. -/
def processExpiredP2POrders (cfg : P2PConfig) (s : P2PState) (now : ℕ) : P2PState :=
  (s.expiredOrders now).foldl (fun s id => s.step cfg (.expire id now)) s

theorem processExpiredP2POrders_eq (cfg : P2PConfig) (s : P2PState) (now : ℕ) :
    s.processExpiredP2POrders cfg now = s := by
  have hnone : s.expiredOrders now = [] := by
    simp [expiredOrders, text_ne_expiryStatus]
  rw [processExpiredP2POrders, hnone, foldl_nil]

def PaidAgrees (o : P2POrder) : Prop :=
  if o.paymentConfirmedAt = none then o.status = .paymentPending ∨ o.status = .cancelled
  else o.status ≠ .paymentPending

theorem PaidAgrees.paid {o : P2POrder} (h : PaidAgrees o) (hpending : o.status ≠ .paymentPending)
    (hopen : o.status ≠ .cancelled) : o.paymentConfirmedAt ≠ none := by
  intro hunpaid
  rw [PaidAgrees, if_pos hunpaid] at h
  exact h.elim hpending hopen

theorem paidAgrees_change {cfg : P2PConfig} {s s' : P2PState} {act : P2PAction} (h : ∀ o ∈ s.orders,
    PaidAgrees o) (hchange : Change cfg s act s') : ∀ o ∈ s'.orders, PaidAgrees o := by
  cases hchange with
  | same | adCreated | adChanged | froze | other => exact h
  | created => exact forall_mem_concat h (.inl rfl)
  | @confirmed _ _ o at? _ hget _ hat =>
    refine forall_mem_set h ?_
    have hpaid : at? ≠ none := fun hnone =>
      (h o (mem_of_getElem? hget)).paid (by rw [(hat hnone).2]; nofun)
        (by rw [(hat hnone).2]; nofun) (hat hnone).1
    rw [PaidAgrees, if_neg hpaid]
    nofun
  | @disputed _ _ o _ hget hstatus =>
    refine forall_mem_set h ?_
    have hpaid := (h o (mem_of_getElem? hget)).paid (by rw [hstatus]; nofun)
      (by rw [hstatus]; nofun)
    rw [PaidAgrees, if_neg hpaid]
    nofun
  | @closed _ _ o _ out _ _ _ hget hopen _ _ _ _ hunpaid =>
    refine forall_mem_set h ?_
    by_cases hpending : o.status = .paymentPending
    · rw [hunpaid hpending, PaidAgrees]
      split_ifs
      · exact .inr rfl
      · nofun
    · have hpaid := (h o (mem_of_getElem? hget)).paid hpending fun hc => by
        rw [hc] at hopen
        cases hopen
      rw [PaidAgrees, if_neg hpaid]
      cases out <;> nofun

theorem paidAgrees_run (cfg : P2PConfig) (available : FundingKey → ℚ≥0) (acts : List P2PAction) :
    ∀ o ∈ (run cfg available acts).orders, PaidAgrees o := by
  induction acts using reverseRecOn with
  | nil => exact forall_mem_nil _
  | append_singleton acts act ih =>
    have hchange := (sound_run cfg available acts).change cfg act
    rw [run, foldl_append]
    exact paidAgrees_change ih hchange

/-- The order has ended, and its escrow went back to the seller. -/
def IsRefunded (s : P2PState) (id : OrderId) : Prop :=
  ∃ o e, s.orders[id]? = some o ∧ o.status.isTerminal = true ∧ s.escrows[o.escrowId]? = some e ∧
    e.status = .refunded

/-- Every order that is not paid in time has ended with a refund. -/
def ExpiredRefunded (before after : P2PState) (now : ℕ) : Prop :=
  ∀ (id : OrderId) (o : P2POrder), before.orders[id]? = some o → o.paymentConfirmedAt = none →
    o.expiresAt < now → after.IsRefunded id

/-- Expired orders are refunded by a run of the job exactly when there is nothing to refund: when
each order that waits for its payment still has time. -/
theorem expired_refunded_iff (cfg : P2PConfig) (available : FundingKey → ℚ≥0)
    (acts : List P2PAction) (now : ℕ) :
    let s := run cfg available acts
    s.ExpiredRefunded (s.processExpiredP2POrders cfg now) now ↔
      ∀ o ∈ s.orders, o.status = .paymentPending → now ≤ o.expiresAt := by
  intro s
  have hpaid := paidAgrees_run cfg available acts
  rw [processExpiredP2POrders_eq]
  constructor
  · intro h o ho hpending
    obtain ⟨id, hget⟩ := mem_iff_getElem?.mp ho
    have hunpaid : o.paymentConfirmedAt = none := by
      by_contra hne
      have := hpaid o ho
      rw [PaidAgrees, if_neg hne] at this
      exact this hpending
    refine not_lt.mp fun hlt => ?_
    obtain ⟨o', e, hget', hended, -⟩ := h id o hget hunpaid hlt
    rw [Option.some.inj (hget'.symm.trans hget), hpending] at hended
    cases hended
  · intro h id o hget hunpaid hlt
    have ho := mem_of_getElem? hget
    have hcancelled : o.status = .cancelled := by
      have := hpaid o ho
      rw [PaidAgrees, if_pos hunpaid] at this
      exact this.resolve_left fun hpending => (h o ho hpending).not_gt hlt
    obtain ⟨e, he, -, -, hrefunded⟩ := (sound_run cfg available acts).linked.coherent id o hget
    exact ⟨o, e, hget, by rw [hcancelled]; rfl, he, (hrefunded.mp (.inl hcancelled)).1⟩

/-- An order that was not paid in time is open after the job, and its escrow is locked. -/
theorem unpaid_order_kept :
    let s := run twoTokens fiveEach (soldRun 1 2)
    let after := s.processExpiredP2POrders twoTokens 900001
    ¬ s.ExpiredRefunded after 900001 ∧
      after.orders.map (fun o => (o.status, o.paymentConfirmedAt, o.expiresAt)) =
        [(.paymentPending, none, 900000)] ∧
      after.escrows.map (fun e => (e.status, e.adminFrozen)) = [(.locked, false)] := by
  intro s after
  have hafter : after = s := processExpiredP2POrders_eq _ _ _
  have horders : s.orders.map (fun o => (o.status, o.paymentConfirmedAt, o.expiresAt)) =
      [(.paymentPending, none, 900000)] := by decide +kernel
  rw [hafter]
  refine ⟨fun h => ?_, horders, by decide +kernel⟩
  obtain ⟨o, hs, ho⟩ := map_eq_singleton_iff.mp horders
  simp only [Prod.mk.injEq] at ho
  have hget : s.orders[0]? = some o := by rw [hs]; rfl
  obtain ⟨o', e, hget', hended, -⟩ := h 0 o hget ho.2.1 (by omega)
  rw [Option.some.inj (hget'.symm.trans hget), ho.1] at hended
  cases hended

end P2PState

end MetherCEX
