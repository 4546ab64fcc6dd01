import MetherCEX.Lib.Table
import MetherCEX.Withdrawal.OneTransaction

/-!
# Locked withdrawal funds are closed once

The ledger has two lines for the lock of a withdrawal, and then at most one of two endings: one
line of a payment, or two lines of a refund.
-/

namespace MetherCEX

open Checks Decimal Run Table Option Function WalletEntry

namespace Wallet

def locking (key : WalletKey) (total : ℚ) : List (WalletKey × WalletBucket × ℚ) :=
  [(key, .available, -total), (key, .locked, total)]

def payment (key : WalletKey) (total : ℚ) : List (WalletKey × WalletBucket × ℚ) :=
  [(key, .locked, -total)]

def givingBack (key : WalletKey) (total : ℚ) : List (WalletKey × WalletBucket × ℚ) :=
  [(key, .available, total), (key, .locked, -total)]

/-- The wallet `w'` is `w` with some moves for the withdrawal `id`. -/
structure Moved (w w' : Wallet) (id : WithdrawalId)
    (moves : List (WalletKey × WalletBucket × ℚ)) : Prop where
  own : w'.movesOf (.withdrawal id) = w.movesOf (.withdrawal id) ++ moves
  others : ∀ id', id' ≠ id → w'.movesOf (.withdrawal id') = w.movesOf (.withdrawal id')
  accounts : ∀ start, Accounted start w → Accounted start w'

variable {w w' : Wallet} {key : WalletKey} {total : ℚ} {id : WithdrawalId}

theorem moved_write {row : WalletRow} {entries : List WalletEntry}
    {moves : List (WalletKey × WalletBucket × ℚ)} (hmoves : entries.map move = moves)
    (hkey : ∀ e ∈ entries, e.key = key) (href : ∀ e ∈ entries, e.reference = .withdrawal id)
    (hrow : ∀ bucket, row.bucket bucket =
      (w.balances key).bucket bucket + moved entries key bucket) :
    Moved w (w.write key row entries) id moves where
  own := hmoves ▸ movesOf_write href
  others id' hid := by
    refine movesOf_write_of_ne fun e he heq => hid ?_
    rw [href e he] at heq
    exact (WalletReference.withdrawal.inj heq).symm
  accounts _ h := h.write hkey hrow

theorem moved_lockFunds (h : w.lockFunds key total id = .ok w') :
    Moved w w' id (locking key total) := by
  simp only [lockFunds, refuseIf_bind_eq_ok] at h
  obtain ⟨-, -, h⟩ := h
  obtain rfl := pure_eq_ok.mp h
  refine moved_write ?_ (by simp [lockEntries]) (by simp [lockEntries]) ?_
  · simp [lockEntries, locking, move, change]
  rintro ⟨⟩ <;> simp [WalletRow.bucket, moved, Tally.tally, lockEntries, change,
    sub_eq_add_neg]

theorem moved_giveBack {shown : ℚ → ℚ} {e : WithdrawalError}
    (h : w.giveBack key total id shown e = .ok w') : Moved w w' id (givingBack key total) := by
  simp only [giveBack, refuseIf_bind_eq_ok] at h
  obtain ⟨-, -, h⟩ := h
  obtain rfl := pure_eq_ok.mp h
  refine moved_write ?_ (by simp [giveBackEntries]) (by simp [giveBackEntries]) ?_
  · simp [giveBackEntries, givingBack, move, change]
  rintro ⟨⟩ <;> simp [WalletRow.bucket, moved, Tally.tally, giveBackEntries, change,
    sub_eq_add_neg]

theorem moved_payOut (h : w.payOut key total id = .ok w') : Moved w w' id (payment key total) := by
  simp only [payOut, refuseIf_bind_eq_ok] at h
  obtain ⟨-, -, h⟩ := h
  obtain rfl := pure_eq_ok.mp h
  refine moved_write ?_ (by simp [payOutEntries]) (by simp [payOutEntries]) ?_
  · simp [payOutEntries, payment, move, change]
  rintro ⟨⟩ <;> simp [WalletRow.bucket, moved, Tally.tally, payOutEntries, change,
    sub_eq_add_neg]

end Wallet

open Wallet

namespace WithdrawalState

variable {cfg : WithdrawalConfig} {s s' : WithdrawalState} {n : WorkerId} {j : SigningJob}
  {answer : Answer} {id : WithdrawalId} {w : Withdrawal} {key : WalletKey}

def moves (s : WithdrawalState) (id : WithdrawalId) : List (WalletKey × WalletBucket × ℚ) :=
  s.wallet.movesOf (.withdrawal id)

/-- Where a withdrawal is on its way, with its funds locked in the row `key`. -/
inductive Funds (s : WithdrawalState) (id : WithdrawalId) (w : Withdrawal) (key : WalletKey) : Prop
  | waiting (hstatus : w.status = .pendingApproval) (hmoves : s.moves id = locking key w.total)
      (hrow : s.queue id = none)
  | pending (hstatus : w.status = .pending) (hmoves : s.moves id = locking key w.total)
      (hjobs : ∀ n j, s.workers n = some j → j.withdrawalId = id → j.stage ≠ .refund)
  | failing (row : QueueRow) (hstatus : w.status = .failed)
      (hmoves : s.moves id = locking key w.total) (hrow : s.queue id = some row)
      (hdead : row.signedTx = none ∧ row.status = .failed)
      (hjobs : ∀ n j, s.workers n = some j → j.withdrawalId = id → j.stage = .refund)
  | refunded (hstatus : w.status = .failed)
      (hmoves : s.moves id = locking key w.total ++ givingBack key w.total)
      (hdead : ∀ row ∈ s.queue id, row.signedTx = none ∧ row.status = .failed)
      (hjobs : ∀ n j, s.workers n = some j → j.withdrawalId ≠ id)
  | completed (row : QueueRow) (hstatus : w.status = .completed)
      (hmoves : s.moves id = locking key w.total ++ payment key w.total)
      (hrow : s.queue id = some row) (hsigned : row.signedTx ≠ none)

theorem Funds.frame (h : s.Funds id w key) (hmoves : s'.moves id = s.moves id)
    (hqueue : s'.queue id = s.queue id) (hjobs : ∀ m k, s'.workers m = some k →
    k.withdrawalId = id → s.workers m = some k) : s'.Funds id w key := by
  cases h with
  | waiting hstatus hm hrow => exact .waiting hstatus (hmoves.trans hm) (hqueue.trans hrow)
  | pending hstatus hm hidle =>
    exact .pending hstatus (hmoves.trans hm)
      (fun m k hk hid => hidle m k (hjobs m k hk hid) hid)
  | failing row hstatus hm hrow hdead hrefund =>
    exact .failing row hstatus (hmoves.trans hm) (hqueue.trans hrow) hdead
      (fun m k hk hid => hrefund m k (hjobs m k hk hid) hid)
  | refunded hstatus hm hdead hnone =>
    refine .refunded hstatus (hmoves.trans hm) ?_
      (fun m k hk hid => hnone m k (hjobs m k hk hid) hid)
    rw [hqueue]
    exact hdead
  | completed row hstatus hm hrow hsigned =>
    exact .completed row hstatus (hmoves.trans hm) (hqueue.trans hrow) hsigned

structure Kept (cfg : WithdrawalConfig) (start : WalletKey → WalletRow) (s : WithdrawalState) :
    Prop where
  phase : ∀ id, s.Phase id
  funds : ∀ (id : WithdrawalId) (w : Withdrawal), s.withdrawals[id]? = some w →
    ∃ currencyId, cfg.currencyIdForToken w.tokenId = some currencyId ∧
      s.Funds id w (w.closingKey currencyId)
  fresh : ∀ id, s.withdrawals.length ≤ id → s.queue id = none ∧ s.moves id = []
  accounts : Accounted start s.wallet

theorem Moves.stage_ne_refund {j' : SigningJob} (h : Moves s j answer j') : j'.stage ≠ .refund := by
  cases h with
  | checked hstage =>
    change (if j.signedTx = none then SigningStage.sign else .broadcast) ≠ .refund
    split_ifs <;> exact nofun
  | _ => exact nofun

theorem Moves.of_refund {j' : SigningJob} (h : Moves s j answer j') : j.stage ≠ .refund := by
  intro hrefund
  cases h <;> simp_all

theorem Writes.stage_ne_refund {f : QueueRow → QueueRow} {j' : SigningJob}
    (h : Writes s j answer f (some j')) : j'.stage ≠ .refund := by
  cases h <;> exact nofun

theorem Writes.of_refund {f : QueueRow → QueueRow} {j' : Option SigningJob}
    (h : Writes s j answer f j') : j.stage ≠ .refund := by
  intro hrefund
  cases h <;> simp_all

theorem stage_ne_refund_of_update {j' : Option SigningJob} (hworkers : s'.workers =
    update s.workers n j') (hjobs : ∀ n j, s.workers n = some j → j.withdrawalId = id →
    j.stage ≠ .refund) (hj' : ∀ k ∈ j', k.stage ≠ .refund) (m : WorkerId) (k : SigningJob)
    (hk : s'.workers m = some k) (hid : k.withdrawalId = id) : k.stage ≠ .refund := by
  rw [hworkers] at hk
  rcases update_eq_some hk with ⟨-, hk⟩ | ⟨-, hk⟩
  · exact hj' k hk
  · exact hjobs m k hk hid

theorem workers_of_ended {m : WorkerId} {k : SigningJob}
    (hk : update s.workers n none m = some k) : s.workers m = some k := by
  rcases update_eq_some hk with ⟨-, hk⟩ | ⟨-, hk⟩
  · cases hk
  · exact hk

theorem Funds.worked {currencyId : CurrencyId} (h : s.Funds j.withdrawalId
    w (w.closingKey currencyId)) (hcurrency : cfg.currencyIdForToken w.tokenId = some currencyId)
    (hw : s.withdrawals[j.withdrawalId]? = some w) (hphase : s.Phase j.withdrawalId)
    (hj : s.workers n = some j) (hworked : Worked cfg s n j answer s')
    {w' : Withdrawal} (hw' : s'.withdrawals[j.withdrawalId]? = some w') :
    w'.tokenId = w.tokenId ∧ s'.Funds j.withdrawalId w' (w'.closingKey currencyId) := by
  have hsame : s'.withdrawals = s.withdrawals → w' = w := by
    intro hlist
    rw [hlist, hw] at hw'
    exact (some.inj hw').symm
  obtain ⟨row, hrow, hjob⟩ := hphase.row_of_job hj
  cases h with
  | waiting _ _ hnone => exact absurd (hrow.symm.trans hnone) (some_ne_none row)
  | refunded _ _ _ hnone => exact absurd rfl (hnone n j hj)
  | pending hstatus hmoves hjobs =>
    cases hworked with
    | ended =>
      obtain rfl := hsame rfl
      exact ⟨rfl, .pending hstatus hmoves fun m k hk => hjobs m k (workers_of_ended hk)⟩
    | moved _ _ hm =>
      obtain rfl := hsame rfl
      refine ⟨rfl, .pending hstatus hmoves (stage_ne_refund_of_update rfl hjobs ?_)⟩
      rintro k ⟨⟩
      exact hm.stage_ne_refund
    | wrote _ hwrites =>
      obtain rfl := hsame rfl
      refine ⟨rfl, .pending hstatus hmoves (stage_ne_refund_of_update rfl hjobs ?_)⟩
      rintro k ⟨⟩
      exact hwrites.stage_ne_refund
    | sent _ _ hnext =>
      obtain rfl := hsame rfl
      refine ⟨rfl, .pending hstatus hmoves (stage_ne_refund_of_update rfl hjobs ?_)⟩
      rintro k ⟨⟩
      rcases hnext with rfl | rfl <;> exact nofun
    | failed hstage hget =>
      -- only the worker of an unsigned row gives up
      obtain ⟨hunsigned, hfirst⟩ | ⟨tx, -, -, hstages⟩ := hjob
      · obtain rfl := some.inj (hw.symm.trans hget)
        simp only [SigningJob.First, hstage] at hfirst
        obtain rfl : _ = w' :=
          some.inj ((getElem?_set_of_getElem? hw).symm.trans hw')
        refine ⟨rfl, .failing row rfl hmoves hrow ⟨hunsigned.signedTx, hfirst⟩ ?_⟩
        intro m k hk hid
        rcases update_eq_some hk with ⟨-, hk⟩ | ⟨hm, hk⟩
        · cases hk
          rfl
        · exact absurd hid (hunsigned.others hj m k hm hk)
      · simp only [hstage] at hstages
    | paid _ hstage hget _ hc hwallet =>
      -- only a worker with the stored transaction pays
      obtain ⟨-, hfirst⟩ | ⟨tx, hsigned, -⟩ := hjob
      · simp only [SigningJob.First, hstage] at hfirst
      · obtain rfl := some.inj (hw.symm.trans hget)
        obtain rfl := some.inj (hcurrency.symm.trans hc)
        obtain rfl : _ = w' :=
          some.inj ((getElem?_set_of_getElem? hw).symm.trans hw')
        refine ⟨rfl, .completed _ rfl ?_ (queue_updateRow_self hrow _) ?_⟩
        · exact (moved_payOut hwallet).own.trans (congrArg (· ++ payment _ _) hmoves)
        · simp [hsigned.signedTx]
    | completed _ _ hget _ hc =>
      obtain rfl := some.inj (hw.symm.trans hget)
      exact absurd (hcurrency.symm.trans hc) (some_ne_none currencyId)
    | refunded _ hstage => exact absurd hstage (hjobs n j hj rfl)
  | failing row' hstatus hmoves hrow' hdead hjobs =>
    have hrefund : j.stage = .refund := hjobs n j hj rfl
    cases hworked with
    | ended =>
      obtain rfl := hsame rfl
      exact ⟨rfl, .failing row' hstatus hmoves hrow' hdead
        fun m k hk => hjobs m k (workers_of_ended hk)⟩
    | refunded _ _ hget hc hwallet =>
      obtain rfl := hsame rfl
      obtain rfl := some.inj (hw.symm.trans hget)
      obtain rfl := some.inj (hcurrency.symm.trans hc)
      refine ⟨rfl, .refunded hstatus ?_ ?_ ?_⟩
      · exact (moved_giveBack hwallet).own.trans (congrArg (· ++ givingBack _ _) hmoves)
      · intro row'' hrow''
        obtain rfl : row' = row'' := some.inj (hrow'.symm.trans hrow'')
        exact hdead
      · obtain ⟨hunsigned, -⟩ | ⟨tx, -, -, hstages⟩ := hjob
        · intro m k hk
          rcases update_eq_some hk with ⟨-, hk⟩ | ⟨hm, hk⟩
          · cases hk
          · exact hunsigned.others hj m k hm hk
        · simp only [hrefund] at hstages
    | moved _ _ hm => exact absurd hrefund hm.of_refund
    | wrote _ hwrites => exact absurd hrefund hwrites.of_refund
    | sent hstage | failed hstage | completed _ hstage | paid _ hstage =>
      rw [hrefund] at hstage
      cases hstage
  | completed row' hstatus hmoves hrow' hsigned =>
    obtain rfl : row = row' := some.inj (hrow.symm.trans hrow')
    obtain ⟨hunsigned, -⟩ | ⟨tx, -, -, hstages⟩ := hjob
    · exact absurd hunsigned.signedTx hsigned
    · cases hworked with
      | ended | moved | sent =>
        obtain rfl := hsame rfl
        exact ⟨rfl, .completed row hstatus hmoves hrow hsigned⟩
      | wrote _ hwrites =>
        obtain rfl := hsame rfl
        refine ⟨rfl, .completed _ hstatus hmoves (queue_updateRow_self hrow _) ?_⟩
        cases hwrites with
        | persisted hstage => simp only [hstage] at hstages
        | _ => exact hsigned
      | paid _ _ hget hopen | completed _ _ hget hopen =>
        obtain rfl := some.inj (hw.symm.trans hget)
        exact absurd hstatus hopen
      | refunded _ hstage | failed hstage => simp only [hstage] at hstages

variable (h : Worked cfg s n j answer s')

include h

theorem Worked.length_eq : s'.withdrawals.length = s.withdrawals.length := by
  cases h with
  | ended | moved | wrote | sent | refunded => rfl
  | failed | completed | paid => exact List.length_set

theorem Worked.withdrawals_of_ne (hid : id ≠ j.withdrawalId) :
    s'.withdrawals[id]? = s.withdrawals[id]? := by
  cases h with
  | ended | moved | wrote | sent | refunded => rfl
  | failed | completed | paid => exact List.getElem?_set_ne hid.symm

theorem Worked.moves_of_ne (hid : id ≠ j.withdrawalId) : s'.moves id = s.moves id := by
  cases h with
  | ended | moved | wrote | sent | failed | completed => rfl
  | refunded _ _ _ _ hwallet => exact (moved_giveBack hwallet).others id hid
  | paid _ _ _ _ _ hwallet => exact (moved_payOut hwallet).others id hid

theorem Worked.accounts {start : WalletKey → WalletRow} (haccounts : Accounted start s.wallet) :
    Accounted start s'.wallet := by
  cases h with
  | ended | moved | wrote | sent | failed | completed => exact haccounts
  | refunded _ _ _ _ hwallet => exact (moved_giveBack hwallet).accounts start haccounts
  | paid _ _ _ _ _ hwallet => exact (moved_payOut hwallet).accounts start haccounts

omit h

section Kept

variable {start : WalletKey → WalletRow}

theorem Kept.withdrawal_of_worker (h : s.Kept cfg start) (hj : s.workers n = some j) :
    j.withdrawalId < s.withdrawals.length := by
  by_contra hlength
  have hrow := (h.fresh j.withdrawalId (not_lt.mp hlength)).1
  exact ((h.phase _).of_none hrow).2 n j hj rfl

theorem Kept.worked (h : s.Kept cfg start) (hj : s.workers n = some j)
    (hproceeds : s.Proceeds n answer) (hworked : Worked cfg s n j answer s') :
    s'.Kept cfg start where
  phase := Phase.worked h.phase hj hproceeds hworked
  accounts := hworked.accounts h.accounts
  fresh id hid := by
    rw [hworked.length_eq] at hid
    have hne : id ≠ j.withdrawalId :=
      fun heq => absurd (h.withdrawal_of_worker hj) (not_lt.mpr (heq ▸ hid))
    rw [hworked.queue_of_ne hne, hworked.moves_of_ne hne]
    exact h.fresh id hid
  funds id w' hw' := by
    by_cases hid : id = j.withdrawalId
    · subst hid
      obtain ⟨w, hw⟩ : ∃ w, s.withdrawals[j.withdrawalId]? = some w :=
        ⟨_, List.getElem?_eq_getElem (h.withdrawal_of_worker hj)⟩
      obtain ⟨currencyId, hcurrency, hfunds⟩ := h.funds _ w hw
      obtain ⟨htoken, hnew⟩ := hfunds.worked hcurrency hw (h.phase _) hj hworked hw'
      exact ⟨currencyId, htoken ▸ hcurrency, hnew⟩
    · rw [hworked.withdrawals_of_ne hid] at hw'
      obtain ⟨currencyId, hcurrency, hfunds⟩ := h.funds id w' hw'
      exact ⟨currencyId, hcurrency, hfunds.frame (hworked.moves_of_ne hid)
        (hworked.queue_of_ne hid) (fun m k => hworked.workers_of_ne hid)⟩

variable {signedTx : Option SignedTx} {row : QueueRow} {wallet : Wallet} {act : WithdrawalAction}

theorem Funds.claim (h : s.Funds id w key) (hrow : s.queue id = some row) (hopen : row.signedTx ≠
    none ∨ row.status ≠ .failed) : (s.afterClaim n id row signedTx).Funds id w key := by
  cases h with
  | waiting _ _ hnone => exact absurd (hrow.symm.trans hnone) (some_ne_none row)
  | refunded _ _ hdead =>
    obtain ⟨htx, hstatus⟩ := hdead row hrow
    rcases hopen with hopen | hopen
    · exact absurd htx hopen
    · exact absurd hstatus hopen
  | failing row' _ _ hrow' hdead =>
    obtain rfl : row = row' := some.inj (hrow.symm.trans hrow')
    rcases hopen with hopen | hopen
    · exact absurd hdead.1 hopen
    · exact absurd hdead.2 hopen
  | pending hstatus hmoves hjobs =>
    refine .pending hstatus hmoves (stage_ne_refund_of_update rfl hjobs ?_)
    rintro k ⟨⟩
    exact nofun
  | completed row' hstatus hmoves hrow' hsigned =>
    obtain rfl : row = row' := some.inj (hrow.symm.trans hrow')
    exact .completed _ hstatus hmoves (update_self id _ s.queue) hsigned

theorem Kept.afterClaim (h : s.Kept cfg start)
    (hphase : ∀ id', (s.afterClaim n id row signedTx).Phase id') (hrow : s.queue id = some row)
    (hopen : row.signedTx ≠ none ∨ row.status ≠ .failed) :
    (s.afterClaim n id row signedTx).Kept cfg start where
  phase := hphase
  accounts := h.accounts
  fresh id' hid' := by
    have hfresh := h.fresh id' hid'
    have hne : id' ≠ id := by
      rintro rfl
      exact some_ne_none row (hrow.symm.trans hfresh.1)
    exact ⟨(update_of_ne hne _ s.queue).trans hfresh.1, hfresh.2⟩
  funds id' w hw := by
    obtain ⟨currencyId, hcurrency, hfunds⟩ := h.funds id' w hw
    refine ⟨currencyId, hcurrency, ?_⟩
    by_cases hid : id' = id
    · subst hid
      exact hfunds.claim hrow hopen
    · refine hfunds.frame rfl (update_of_ne hid _ _) ?_
      intro m k hk hkid
      rcases update_eq_some hk with ⟨-, hk⟩ | ⟨-, hk⟩
      · cases hk
        exact absurd hkid.symm hid
      · exact hk

theorem Kept.claim (h : s.Kept cfg start) (hclaimed : Claimed s n id s') : s'.Kept cfg start := by
  have hphase := Phase.claim h.phase hclaimed
  cases hclaimed with
  | nothing => exact h
  | first hrow hstatus => exact h.afterClaim hphase hrow (.inr (by simp [hstatus]))
  | again hrow _ htx => exact h.afterClaim hphase hrow (.inl htx)

theorem toAmount_add (x y : ℚ) : toAmount (toAmount x + toAmount y) = toAmount x + toAmount y :=
  ((onGrid_roundDown amountPrecision x).add (onGrid_roundDown amountPrecision y)).roundDown_eq

/-- The funds of a request are locked in the row from which they are taken at the end. -/
def LocksOwnRow (cfg : WithdrawalConfig) (s : WithdrawalState) : WithdrawalAction → Prop
  | .withdraw r => ∀ currencyId ∈ cfg.currencyIdForToken r.tokenId,
      s.lockKey cfg r currencyId (requestTotal r) = (newWithdrawal cfg r).closingKey currencyId
  | _ => True

instance : ∀ act, Decidable (s.LocksOwnRow cfg act)
  | .withdraw _ => inferInstanceAs (Decidable (∀ currencyId ∈ _, _ = _))
  | .work .. | .enqueue .. | .approve _ | .reject _ | .cancel .. | .claim .. | .crash _ | .expire _
  | .other .. => .isTrue trivial

theorem Kept.withdrawn {r : WithdrawalRequest} {currencyId : CurrencyId} (h : s.Kept cfg start)
    (hown : s.LocksOwnRow cfg (.withdraw r))
    (hcurrency : cfg.currencyIdForToken r.tokenId = some currencyId)
    (hwallet : s.wallet.lockFunds (s.lockKey cfg r currencyId (requestTotal r)) (requestTotal r)
      s.withdrawals.length = .ok wallet)
    (hphase : ∀ id, { s with
      withdrawals := s.withdrawals ++ [newWithdrawal cfg r], wallet := wallet }.Phase id) :
    { s with withdrawals := s.withdrawals ++ [newWithdrawal cfg r], wallet := wallet }.Kept cfg
      start := by
  have hmoved := moved_lockFunds hwallet
  have hnew := h.fresh _ le_rfl
  refine ⟨hphase, ?_, ?_, hmoved.accounts start h.accounts⟩
  · intro id w hw
    rcases getElem?_concat_cases hw with ⟨rfl, rfl⟩ | ⟨hlt, hw⟩
    · refine ⟨currencyId, hcurrency, ?_⟩
      have hmoves : wallet.movesOf (.withdrawal s.withdrawals.length) =
          locking ((newWithdrawal cfg r).closingKey currencyId) (newWithdrawal cfg r).total := by
        have htotal : (newWithdrawal cfg r).total = requestTotal r :=
          (toAmount_add r.amount r.fee).symm
        rw [hmoved.own, htotal, ← hown currencyId hcurrency]
        exact congrArg (· ++ locking _ _) hnew.2
      cases hneeds : r.needsApproval with
      | true => exact .waiting (by simp [newWithdrawal, hneeds]) hmoves hnew.1
      | false =>
        refine .pending (by simp [newWithdrawal, hneeds]) hmoves ?_
        intro n j hj hid
        exact absurd hid (((h.phase _).of_none hnew.1).2 n j hj)
    · obtain ⟨currencyId', hcurrency', hfunds⟩ := h.funds id w hw
      exact ⟨currencyId', hcurrency', hfunds.frame (hmoved.others id (Nat.ne_of_lt hlt)) rfl
        fun _ _ hk _ => hk⟩
  · intro id hid
    rw [List.length_append] at hid
    have hlt : s.withdrawals.length < id := hid
    have hfresh := h.fresh id hlt.le
    exact ⟨hfresh.1, (hmoved.others id hlt.ne').trans hfresh.2⟩

theorem Kept.enqueued (h : s.Kept cfg start) (hw : s.withdrawals[id]? = some w)
    (hstatus : w.status = .pending) (hrow : s.queue id = none)
    (hphase : ∀ id', { s with
      queue := update s.queue id (some ⟨.pending, none, 0⟩) }.Phase id') :
    { s with queue := update s.queue id (some ⟨.pending, none, 0⟩) }.Kept cfg start := by
  refine ⟨hphase, ?_, ?_, h.accounts⟩
  · intro id' w' hw'
    obtain ⟨currencyId, hcurrency, hfunds⟩ := h.funds id' w' hw'
    refine ⟨currencyId, hcurrency, ?_⟩
    by_cases hid : id' = id
    · subst hid
      obtain rfl := some.inj (hw.symm.trans hw')
      cases hfunds with
      | pending _ hmoves hjobs => exact .pending hstatus hmoves hjobs
      | waiting hother | failing _ hother | refunded hother | completed _ hother =>
        rw [hstatus] at hother
        cases hother
    · exact hfunds.frame rfl (update_of_ne hid _ _) fun _ _ hk _ => hk
  · intro id' hid'
    have hne : id' ≠ id := Nat.ne_of_gt (lt_of_lt_of_le (lt_length_of_getElem? hw) hid')
    have hfresh := h.fresh id' hid'
    exact ⟨(update_of_ne hne _ s.queue).trans hfresh.1, hfresh.2⟩

theorem Kept.decided {status : WithdrawalStatus} {more : List (WalletKey × WalletBucket × ℚ)}
    (h : s.Kept cfg start) (hw : s.withdrawals[id]? = some w)
    (hstatus : w.status = .pendingApproval) (hmoved : Moved s.wallet wallet id more)
    (hfunds : ∀ key, s.moves id = locking key w.total → s.queue id = none →
      (∀ n j, s.workers n = some j → j.withdrawalId ≠ id) →
      (∃ currencyId, cfg.currencyIdForToken w.tokenId = some currencyId ∧
        key = w.closingKey currencyId) →
      { s.setWithdrawal id { w with status := status } with wallet := wallet }.Funds id
        { w with status := status } key) :
    { s.setWithdrawal id { w with status := status } with wallet := wallet }.Kept cfg start := by
  refine ⟨?_, ?_, ?_, hmoved.accounts start h.accounts⟩
  · exact fun id' => (h.phase id').frame rfl (fun _ _ hk _ => hk) (fun _ hb _ => hb)
  · intro id' w' hw'
    rcases getElem?_set_cases hw' with ⟨rfl, rfl⟩ | ⟨hne, hw'⟩
    · obtain ⟨currencyId, hcurrency, hold⟩ := h.funds _ w hw
      refine ⟨currencyId, hcurrency, ?_⟩
      cases hold with
      | waiting _ hmoves hrow =>
        exact hfunds _ hmoves hrow ((h.phase _).of_none hrow).2
          ⟨currencyId, hcurrency, rfl⟩
      | pending hother | failing _ hother | refunded hother | completed _ hother =>
        rw [hstatus] at hother
        cases hother
    · obtain ⟨currencyId, hcurrency, hold⟩ := h.funds id' w' hw'
      exact ⟨currencyId, hcurrency, hold.frame (hmoved.others id' hne) rfl fun _ _ hk _ => hk⟩
  · intro id' hid'
    have hlength : s.withdrawals.length ≤ id' := by
      simpa only [setWithdrawal, List.length_set] using hid'
    have hne : id' ≠ id := Nat.ne_of_gt (lt_of_lt_of_le (lt_length_of_getElem? hw) hlength)
    have hfresh := h.fresh id' hlength
    exact ⟨hfresh.1, (hmoved.others id' hne).trans hfresh.2⟩

theorem moved_refl (wallet : Wallet) (id : WithdrawalId) : Moved wallet wallet id [] :=
  ⟨(List.append_nil _).symm, fun _ _ => rfl, fun _ h => h⟩

theorem Kept.requested (h : s.Kept cfg start) (hown : s.LocksOwnRow cfg act)
    (hrequested : Requested cfg s act s') : s'.Kept cfg start := by
  have hphase := Phase.requested h.phase hrequested
  cases hrequested with
  | nothing => exact h
  | withdrawn hcurrency hwallet => exact h.withdrawn hown hcurrency hwallet hphase
  | enqueued hw hstatus hrow => exact h.enqueued hw hstatus hrow hphase
  | @approved id w hw hstatus =>
    refine h.decided hw hstatus (moved_refl s.wallet id) ?_
    intro key hmoves _ hidle _
    exact .pending rfl hmoves fun n j hj hid => absurd hid (hidle n j hj)
  | rejected hw hstatus hcurrency hwallet =>
    refine h.decided hw hstatus (moved_giveBack hwallet) ?_
    rintro key hmoves hrow hidle ⟨currencyId, hc, rfl⟩
    obtain rfl := some.inj (hcurrency.symm.trans hc)
    refine .refunded rfl ?_ ?_ hidle
    · exact (moved_giveBack hwallet).own.trans (congrArg (· ++ givingBack _ _) hmoves)
    · intro row hrow'
      exact absurd (mem_def.mp hrow' ▸ hrow : some row = none) (some_ne_none row)

/-- The condition on the steps of a run: retries proceed, and funds are locked in the own row. -/
def Orderly (cfg : WithdrawalConfig) (s : WithdrawalState) (act : WithdrawalAction) : Prop :=
  s.RetriesProceed act ∧ s.LocksOwnRow cfg act
  deriving Decidable

theorem Kept.otherChange (h : s.Kept cfg start) (key : WalletKey) (available locked : ℚ) :
    (s.otherChange key available locked).Kept cfg start := by
  have hmoves : ∀ id, (s.otherChange key available locked).moves id = s.moves id :=
    fun id => movesOf_write_of_ne (by simp)
  refine ⟨?_, ?_, ?_, ?_⟩
  · exact fun id => (h.phase id).frame rfl (fun _ _ hk _ => hk) (fun _ hb _ => hb)
  · intro id w hw
    obtain ⟨currencyId, hcurrency, hfunds⟩ := h.funds id w hw
    exact ⟨currencyId, hcurrency, hfunds.frame (hmoves id) rfl fun _ _ hk _ => hk⟩
  · intro id hid
    rw [hmoves]
    exact h.fresh id hid
  · refine h.accounts.write (by simp) ?_
    rintro ⟨⟩ <;> simp [WalletRow.bucket, moved, Tally.tally, change]

theorem Kept.step (h : s.Kept cfg start) (hact : s.Orderly cfg act) (hstep : Stepped cfg s act s') :
    s'.Kept cfg start := by
  have hphase := Phase.step h.phase hact.1 hstep
  cases hstep with
  | requested hrequested => exact h.requested hact.2 hrequested
  | claimed hclaimed => exact h.claim hclaimed
  | worked hj hworked => exact h.worked hj hact.1 hworked
  | other key available locked => exact h.otherChange key available locked
  | expired id =>
    exact ⟨hphase, fun id w hw =>
      (h.funds id w hw).imp fun _ hfunds =>
        ⟨hfunds.1, hfunds.2.frame rfl rfl fun _ _ hk _ => hk⟩, h.fresh, h.accounts⟩
  | crashed n =>
    exact ⟨hphase, fun id w hw =>
      (h.funds id w hw).imp fun _ hfunds =>
        ⟨hfunds.1, hfunds.2.frame rfl rfl fun _ _ hk _ => workers_of_ended hk⟩,
      h.fresh, h.accounts⟩

theorem kept_init : (init start).Kept cfg start :=
  ⟨phase_init start, fun _ _ hw => by simp [init] at hw, fun _ _ => ⟨rfl, rfl⟩, accounted_init⟩

theorem kept_run {acts : List WithdrawalAction} (h : Along (WithdrawalState.step cfg)
    (Orderly cfg) (init start) acts) : (run cfg start acts).Kept cfg start :=
  h.invariant (P := Kept cfg start) kept_init
    (fun _ act hkept hact => hkept.step hact (stepped_of_step act))

end Kept

/-- The lines about a withdrawal: its funds are locked in the row `key`, and at most once taken
out of the locked balance of that row, by a payment, or by a refund if nothing was broadcast. -/
def ClosedOnce (s : WithdrawalState) (id : WithdrawalId) (key : WalletKey) (total : ℚ) : Prop :=
  s.moves id = locking key total ∨
    s.moves id = locking key total ++ payment key total ∨
    s.moves id = locking key total ++ givingBack key total ∧
      ∀ b ∈ s.broadcasts, b.withdrawalId ≠ id

theorem Funds.closedOnce (h : s.Funds id w key) (hphase : s.Phase id) :
    s.ClosedOnce id key w.total := by
  cases h with
  | waiting _ hmoves | pending _ hmoves | failing _ _ hmoves => exact .inl hmoves
  | completed _ _ hmoves => exact .inr (.inl hmoves)
  | refunded _ hmoves hdead =>
    refine .inr (.inr ⟨hmoves, ?_⟩)
    cases hphase with
    | absent _ hbroadcasts => exact hbroadcasts
    | unsigned row _ hphase => exact hphase.broadcasts
    | signed row tx hrow hphase =>
      exact absurd ((hdead row hrow).1.symm.trans hphase.signedTx)
        (some_ne_none tx).symm

/-- In every run in which retries proceed and funds are locked in the own row, the funds of each
withdrawal leave the locked balance at most once, from the row in which they were locked, and go
back to the available balance only if nothing was broadcast; and the lines account for every
balance. -/
theorem locked_funds_closed_once (cfg : WithdrawalConfig) (start : WalletKey → WalletRow)
    (acts : List WithdrawalAction) (h : Along (step cfg) (Orderly cfg) (init start) acts) :
    (∀ (id : WithdrawalId) (w : Withdrawal), (run cfg start acts).withdrawals[id]? = some w →
      ∃ key, (run cfg start acts).ClosedOnce id key w.total) ∧
    Accounted start (run cfg start acts).wallet := by
  have hkept := kept_run h
  refine ⟨?_, hkept.accounts⟩
  intro id w hw
  obtain ⟨currencyId, -, hfunds⟩ := hkept.funds id w hw
  exact ⟨_, hfunds.closedOnce (hkept.phase id)⟩

/-- The run in which an answer is lost pays the withdrawal once. -/
theorem lostAnswerRun_closed_once :
    (run ethConfig tenCoins lostAnswerRun).moves 0 =
        locking ⟨7, 1, "eth", .funding⟩ 3 ++ payment ⟨7, 1, "eth", .funding⟩ 3 ∧
      (∃ key, (run ethConfig tenCoins lostAnswerRun).ClosedOnce 0 key (3 + 0)) ∧
      Accounted tenCoins (run ethConfig tenCoins lostAnswerRun).wallet := by
  obtain ⟨hclosed, haccounts⟩ :=
    locked_funds_closed_once ethConfig tenCoins lostAnswerRun (by decide +kernel)
  exact ⟨by decide +kernel,
    hclosed 0 ⟨7, 1, "eth", 3, 0, .funding, .completed, some 0⟩ (by decide +kernel), haccounts⟩

def refundAfterBroadcastRun : List WithdrawalAction :=
  [.withdraw threeCoins, .enqueue 0 true] ++ signFirst 0 ++
    [.work 0 .lost, .work 0 .yes, .work 0 .yes, .claim 1 0, .work 1 .yes, .work 1 .no,
      .work 1 .yes, .work 1 .yes, .claim 2 0, .work 2 .yes, .work 2 .no, .work 2 .yes,
      .work 2 .yes, .work 2 .yes, .work 2 .yes]

/-- The second withdrawal finds too little in the row of its chain and locks the global row. -/
def globalRowRun : List WithdrawalAction :=
  [.withdraw { threeCoins with amount := 8 }, .withdraw threeCoins, .enqueue 1 true,
    .claim 0 1, .work 0 .yes, .work 0 .yes, .work 0 .yes, .work 0 .yes, .work 0 .yes,
    .work 0 .yes]

/-- A withdrawal that has reached the chain is refunded; another one is paid from a row in which
its funds were never locked. -/
theorem funds_closed_wrongly :
    ((run ethConfig tenCoins refundAfterBroadcastRun).broadcasts = [⟨0, 0, true⟩] ∧
      (run ethConfig tenCoins refundAfterBroadcastRun).moves 0 =
        locking ⟨7, 1, "eth", .funding⟩ 3 ++ givingBack ⟨7, 1, "eth", .funding⟩ 3) ∧
    (run ethConfig tenCoins globalRowRun).moves 1 =
      locking ⟨7, 1, "", .funding⟩ 3 ++ payment ⟨7, 1, "eth", .funding⟩ 3 := by
  decide +kernel

end WithdrawalState

end MetherCEX
