import MetherCEX.Withdrawal.LockedFunds

/-!
# What a withdrawal costs

The route locks the amount plus the fee, and the transaction sends the amount minus the fee: the
fee is charged twice.
-/

namespace MetherCEX

open Decimal Run Table Wallet List

namespace Withdrawal

/-- The column `net_amount`, as the route computes it. -/
def netAmount (w : Withdrawal) : ℚ := toAmount (w.amount - w.fee)

/-- The value of the transaction, in the smallest unit of the token. -/
def valueWei (w : Withdrawal) (decimals : ℕ) : ℤ := ⌊w.netAmount * 10 ^ decimals⌋

theorem valueWei_div (w : Withdrawal) {decimals : ℕ} (h : amountPrecision ≤ decimals) :
    (w.valueWei decimals : ℚ) / 10 ^ decimals = w.netAmount := by
  obtain ⟨n, hn⟩ := (onGrid_roundDown amountPrecision (w.amount - w.fee)).of_le h
  have hnet : w.netAmount = n / 10 ^ decimals := hn
  rw [valueWei, hnet, div_mul_cancel₀ _ (pow_ten_pos decimals).ne', Int.floor_intCast]

end Withdrawal

namespace WithdrawalState

variable {cfg : WithdrawalConfig} {s s' : WithdrawalState} {id : WithdrawalId} {w : Withdrawal}

def Gridded (s : WithdrawalState) : Prop :=
  ∀ w ∈ s.withdrawals, OnGrid amountPrecision w.amount ∧ OnGrid amountPrecision w.fee

theorem Gridded.set (h : s.Gridded) {w' : Withdrawal} (hw : s.withdrawals[id]? = some w)
    (hs' : s'.withdrawals = s.withdrawals.set id w') (hamount : w'.amount = w.amount)
    (hfee : w'.fee = w.fee) : s'.Gridded := by
  rw [Gridded, hs']
  refine forall_mem_set h ?_
  rw [hamount, hfee]
  exact h w (mem_of_getElem? hw)

theorem Gridded.step (h : s.Gridded) {act : WithdrawalAction} (hstep : Stepped cfg s act s') :
    s'.Gridded := by
  cases hstep with
  | crashed | expired | other => exact h
  | claimed hclaimed => cases hclaimed <;> exact h
  | requested hrequested =>
    cases hrequested with
    | nothing | enqueued => exact h
    | withdrawn => exact forall_mem_concat h ⟨onGrid_roundDown _ _, onGrid_roundDown _ _⟩
    | approved hw | rejected hw => exact h.set hw rfl rfl rfl
  | worked hj hworked =>
    cases hworked with
    | ended | moved | wrote | sent | refunded => exact h
    | failed _ hw | completed _ _ hw | paid _ _ hw => exact h.set hw rfl rfl rfl

theorem gridded_run (cfg : WithdrawalConfig) (start : WalletKey → WalletRow)
    (acts : List WithdrawalAction) : (run cfg start acts).Gridded :=
  (along_of_forall (C := fun _ _ => True) (fun _ _ => trivial) _ acts).invariant (P := Gridded)
    (forall_mem_nil _) fun s act hs _ => hs.step (show Stepped cfg s act _ from stepped_of_step act)

/-- What the lines about a withdrawal took from the balances altogether. -/
def removed (s : WithdrawalState) (id : WithdrawalId) : ℚ := -((s.moves id).map (·.2.2)).sum

theorem Funds.removed_of_completed {key : WalletKey} (h : s.Funds id w key)
    (hcompleted : w.status = .completed) : s.removed id = w.total := by
  cases h with
  | waiting hstatus | pending hstatus | failing _ hstatus | refunded hstatus =>
    exact absurd (hcompleted.symm.trans hstatus) nofun
  | completed row _ hmoves => simp [removed, hmoves, locking, payment]

/-- A completed withdrawal costs what was sent plus the fee exactly when there is no fee, in every
run in which retries proceed and funds are locked in the own row. -/
theorem completed_cost_iff (cfg : WithdrawalConfig) (start : WalletKey → WalletRow) (acts :
    List WithdrawalAction) (h : Along (step cfg) (Orderly cfg) (init start) acts) (decimals : ℕ)
    (hdecimals : 8 ≤ decimals) : Accounted start (run cfg start acts).wallet ∧ ∀ (id : WithdrawalId)
    (w : Withdrawal), (run cfg start acts).withdrawals[id]? = some w → w.status = .completed → ((run
    cfg start acts).removed id = w.valueWei decimals / 10 ^ decimals + w.fee ↔ w.fee = 0) := by
  have hkept := kept_run h
  refine ⟨hkept.accounts, fun id w hw hcompleted => ?_⟩
  obtain ⟨currencyId, -, hfunds⟩ := hkept.funds id w hw
  obtain ⟨hamount, hfee⟩ := gridded_run cfg start acts w (mem_of_getElem? hw)
  have hnet : w.netAmount = w.amount - w.fee := (hamount.sub hfee).roundDown_eq
  rw [hfunds.removed_of_completed hcompleted, w.valueWei_div hdecimals, hnet, Withdrawal.total,
    sub_add_cancel, add_eq_left]

theorem lostAnswerRun_cost :
    ∃ w, (run ethConfig tenCoins lostAnswerRun).withdrawals[0]? = some w ∧ w.status = .completed ∧
    (run ethConfig tenCoins lostAnswerRun).removed 0 = w.valueWei 18 / 10 ^ 18 + w.fee := by
  obtain ⟨-, hcost⟩ := completed_cost_iff ethConfig tenCoins lostAnswerRun (by decide +kernel) 18
    (by decide)
  have hw : (run ethConfig tenCoins lostAnswerRun).withdrawals[0]? =
      some ⟨7, 1, "eth", 3, 0, .funding, .completed, some 0⟩ := by decide +kernel
  exact ⟨_, hw, rfl, (hcost 0 _ hw rfl).mpr rfl⟩

/-- A withdrawal of 3 with a fee of 1 is signed, broadcast and completed. -/
def feeRun : List WithdrawalAction :=
  [.withdraw { threeCoins with fee := 1 }, .enqueue 0 true] ++ signFirst 0 ++
    [.work 0 .yes, .work 0 .yes]

/-- It takes 4 from the user, and 2 are sent. -/
theorem fee_charged_twice : Along (step ethConfig) (Orderly ethConfig) (init tenCoins) feeRun ∧
    (run ethConfig tenCoins feeRun).withdrawals.map (fun w => (w.status, w.fee, w.valueWei 18)) =
    [(.completed, 1, 2 * 10 ^ 18)] ∧ (run ethConfig tenCoins feeRun).removed 0 = 4 := by
  decide +kernel

end WithdrawalState

end MetherCEX
