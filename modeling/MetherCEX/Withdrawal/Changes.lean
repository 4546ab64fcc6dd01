import MetherCEX.Withdrawal.Model

/-!
# What a step can do

A worker changes its own job, the queue row of its withdrawal, the list of broadcasts, and at the
end the withdrawal and the balances.
-/

namespace MetherCEX

open Checks Function

namespace SigningJob

/-- The worker has claimed the row for another broadcast, or has signed. -/
def HasTx (j : SigningJob) : Prop := j.signedTx ≠ none
  deriving Decidable

end SigningJob

namespace WithdrawalState

variable {cfg : WithdrawalConfig} {s : WithdrawalState} {n : WorkerId} {j : SigningJob}
  {answer : Answer}

inductive Moves (s : WithdrawalState) (j : SigningJob) (answer : Answer) : SigningJob → Prop
  | locked (hstage : j.stage = .claimed) : Moves s j answer { j with stage := .locked }
  | checked (hstage : j.stage = .locked) :
      Moves s j answer { j with stage := if j.signedTx = none then .sign else .broadcast }
  | checkFailed (hstage : j.stage = .locked)
      (hfailed : ¬ (s.Signable j.withdrawalId ∧ answer = .yes)) :
      Moves s j answer { j with stage := .fail true }
  | signed (hstage : j.stage = .sign) :
      Moves s j answer { j with signedTx := some s.signatures, stage := .persist }
  | signFailed (hstage : j.stage = .sign) : Moves s j answer { j with stage := .fail true }
  | atLimit (hstage : j.stage = .broadcastFailed) (hlimit : s.AtLimit j.withdrawalId) :
      Moves s j answer { j with stage := .recover }
  | belowLimit (hstage : j.stage = .broadcastFailed) : Moves s j answer { j with stage := .requeue }
  | found (hstage : j.stage = .recover) : Moves s j answer { j with stage := .finish }
  | notFound (hstage : j.stage = .recover) : Moves s j answer { j with stage := .fail false }
  | readAttempts {refundOnFinal : Bool} {row : QueueRow} (hstage : j.stage = .fail refundOnFinal)
      (hrow : s.queue j.withdrawalId = some row) :
      Moves s j answer
        { j with stage := .mark (decide (maxAttempts ≤ row.attempts)) refundOnFinal }

/-- The steps that write the queue row, and what becomes of the worker. -/
inductive Writes (s : WithdrawalState) (j : SigningJob) (answer : Answer) :
    (QueueRow → QueueRow) → Option SigningJob → Prop
  | lockFailed (hstage : j.stage = .claimed)
      (hfailed : ¬ (answer = .yes ∧ s.locks j.withdrawalId = none)) :
      Writes s j answer
        (fun row => { row with status := .pending, attempts := row.attempts - 1 }) none
  | persisted (hstage : j.stage = .persist) :
      Writes s j answer (fun row => { row with status := .broadcast, signedTx := j.signedTx })
        (some { j with stage := .broadcast })
  | requeued (hstage : j.stage = .requeue) :
      Writes s j answer (fun row => { row with status := .broadcast }) none
  | uncertain (hstage : j.stage = .mark true false) :
      Writes s j answer (fun row => { row with status := .broadcastUncertain }) none
  | failed (hstage : j.stage = .mark true true) :
      Writes s j answer (fun row => { row with status := .failed })
        (some { j with stage := .failWithdrawal })
  | retried {refundOnFinal : Bool} (hstage : j.stage = .mark false refundOnFinal) :
      Writes s j answer (fun row => { row with status := .pending }) none
  | ended {status : QueueStatus} (hstage : j.stage = .finish) (hstatus : status ≠ .pending) :
      Writes s j answer (fun row => { row with status := status }) none

/-- The state after a step of the worker `n`, with the locks `locks`. -/
def after (s : WithdrawalState) (n : WorkerId) (j' : Option SigningJob)
    (locks : WithdrawalId → Option WorkerId) : WithdrawalState :=
  { s with workers := update s.workers n j', locks := locks }

/-- What a step of the worker `n` with the job `j` can do. -/
inductive Worked (cfg : WithdrawalConfig) (s : WithdrawalState) (n : WorkerId) (j : SigningJob)
    (answer : Answer) : WithdrawalState → Prop
  | ended (locks : WithdrawalId → Option WorkerId) :
      Worked cfg s n j answer (s.after n none locks)
  | moved {j' : SigningJob} (signatures : ℕ) (locks : WithdrawalId → Option WorkerId)
      (hmoves : Moves s j answer j') :
      Worked cfg s n j answer { s.after n (some j') locks with signatures := signatures }
  | wrote {f : QueueRow → QueueRow} {j' : Option SigningJob}
      (locks : WithdrawalId → Option WorkerId) (hwrites : Writes s j answer f j') :
      Worked cfg s n j answer ((s.updateRow j.withdrawalId f).after n j' locks)
  | sent {tx : SignedTx} {reached : Bool} {stage : SigningStage}
      (hstage : j.stage = .broadcast) (htx : j.signedTx = some tx)
      (hnext : stage = .finish ∨ stage = .broadcastFailed) :
      Worked cfg s n j answer
        ((s.send ⟨j.withdrawalId, tx, reached⟩).after n (some { j with stage := stage }) s.locks)
  | failed {w : Withdrawal} (hstage : j.stage = .failWithdrawal)
      (hw : s.withdrawals[j.withdrawalId]? = some w) :
      Worked cfg s n j answer
        ((s.setWithdrawal j.withdrawalId { w with status := .failed }).after n
          (some { j with stage := .refund }) s.locks)
  | refunded {w : Withdrawal} {currencyId : CurrencyId} {e : WithdrawalError} {wallet : Wallet}
      (locks : WithdrawalId → Option WorkerId) (hstage : j.stage = .refund)
      (hw : s.withdrawals[j.withdrawalId]? = some w)
      (hcurrency : cfg.currencyIdForToken w.tokenId = some currencyId)
      (hwallet : s.wallet.giveBack (w.closingKey currencyId) w.total j.withdrawalId toAmount e =
        .ok wallet) :
      Worked cfg s n j answer { s.after n none locks with wallet := wallet }
  | completed {w : Withdrawal} (locks : WithdrawalId → Option WorkerId)
      (hstage : j.stage = .finish) (hw : s.withdrawals[j.withdrawalId]? = some w)
      (hstatus : w.status ≠ .completed) (hcurrency : cfg.currencyIdForToken w.tokenId = none) :
      Worked cfg s n j answer ((s.completed j w).after n none locks)
  | paid {w : Withdrawal} {currencyId : CurrencyId} {wallet : Wallet}
      (locks : WithdrawalId → Option WorkerId) (hstage : j.stage = .finish)
      (hw : s.withdrawals[j.withdrawalId]? = some w) (hstatus : w.status ≠ .completed)
      (hcurrency : cfg.currencyIdForToken w.tokenId = some currencyId)
      (hwallet : s.wallet.payOut (w.closingKey currencyId) w.total j.withdrawalId = .ok wallet) :
      Worked cfg s n j answer { (s.completed j w).after n none locks with wallet := wallet }

def afterClaim (s : WithdrawalState) (n : WorkerId) (id : WithdrawalId) (row : QueueRow)
    (signedTx : Option SignedTx) : WithdrawalState :=
  { s with
    queue := update s.queue id
      (some { row with status := .signing, attempts := row.attempts + 1 })
    workers := update s.workers n (some ⟨id, signedTx, .claimed⟩) }

/-- What a claim can do: nothing, or the row is taken for a first or for another broadcast. -/
inductive Claimed (s : WithdrawalState) (n : WorkerId) (id : WithdrawalId) : WithdrawalState → Prop
  | nothing : Claimed s n id s
  | first {row : QueueRow} (hrow : s.queue id = some row) (hstatus : row.status = .pending) :
      Claimed s n id (s.afterClaim n id row none)
  | again {row : QueueRow} (hrow : s.queue id = some row) (hstatus : row.status = .broadcast)
      (htx : row.signedTx ≠ none) : Claimed s n id (s.afterClaim n id row row.signedTx)

theorem claimed_of_claim (id : WithdrawalId) : Claimed s n id (s.claim n id) := by
  rw [claim]
  split
  · next row hn hrow =>
      by_cases hclaim : (row.status = .pending ∨ row.status = .broadcast ∧ row.signedTx ≠ none) ∧
          row.attempts < maxAttempts
      · rw [if_pos hclaim]
        rcases hclaim.1 with hpending | ⟨hbroadcast, htx⟩
        · rw [if_neg (by simp [hpending])]
          exact .first hrow hpending
        · rw [if_pos hbroadcast]
          exact .again hrow hbroadcast htx
      · rw [if_neg hclaim]
        exact .nothing
  · exact .nothing

theorem Moves.withdrawalId {j' : SigningJob} (h : Moves s j answer j') :
    j'.withdrawalId = j.withdrawalId := by
  cases h <;> rfl

theorem Writes.withdrawalId {f : QueueRow → QueueRow} {j' : SigningJob}
    (h : Writes s j answer f (some j')) : j'.withdrawalId = j.withdrawalId := by
  cases h <;> rfl

variable {s' : WithdrawalState} {id : WithdrawalId}

variable (h : Worked cfg s n j answer s')

include h

theorem Worked.workers_eq : ∃ j', s'.workers = update s.workers n j' ∧
    ∀ k ∈ j', k.withdrawalId = j.withdrawalId := by
  cases h with
  | ended | refunded | completed | paid => exact ⟨none, rfl, fun k hk => nomatch hk⟩
  | sent | failed =>
    refine ⟨_, rfl, ?_⟩
    rintro k ⟨⟩
    rfl
  | moved _ _ hmoves =>
    refine ⟨_, rfl, ?_⟩
    rintro k ⟨⟩
    exact hmoves.withdrawalId
  | wrote _ hwrites =>
    refine ⟨_, rfl, ?_⟩
    rintro k ⟨⟩
    exact hwrites.withdrawalId

theorem Worked.workers_of_ne (hid : id ≠ j.withdrawalId) {m : WorkerId} {k : SigningJob}
    (hk : s'.workers m = some k) (hkid : k.withdrawalId = id) : s.workers m = some k := by
  obtain ⟨j', hworkers, hj'⟩ := h.workers_eq
  rw [hworkers] at hk
  rcases Run.update_eq_some hk with ⟨-, hk⟩ | ⟨-, hk⟩
  · exact absurd (hkid.symm.trans (hj' k hk)) hid
  · exact hk

theorem Worked.queue_of_ne (hid : id ≠ j.withdrawalId) : s'.queue id = s.queue id := by
  cases h with
  | ended | refunded | moved | sent | failed => rfl
  | wrote | completed | paid => exact update_of_ne hid _ _

theorem Worked.broadcasts_of_ne (hid : id ≠ j.withdrawalId) {b : Broadcast}
    (hb : b ∈ s'.broadcasts) (hbid : b.withdrawalId = id) : b ∈ s.broadcasts := by
  cases h with
  | ended | refunded | moved | failed | wrote | completed | paid => exact hb
  | sent =>
    rcases List.mem_append.mp hb with hb | hb
    · exact hb
    · obtain rfl := List.mem_singleton.mp hb
      exact absurd hbid.symm hid

omit h

theorem worked_acquireLock (hstage : j.stage = .claimed) :
    Worked cfg s n j answer (s.acquireLock n j answer) := by
  rw [acquireLock]
  split_ifs with hfree
  · exact .moved s.signatures _ (.locked hstage)
  · exact .wrote s.locks (.lockFailed hstage hfree)

theorem worked_check (hstage : j.stage = .locked) :
    Worked cfg s n j answer (s.check n j answer) := by
  by_cases hpassed : s.Signable j.withdrawalId ∧ answer = .yes
  · rw [check, if_pos hpassed]
    exact .moved s.signatures s.locks (.checked hstage)
  · rw [check, if_neg hpassed]
    exact .moved s.signatures s.locks (.checkFailed hstage hpassed)

theorem worked_sign (hstage : j.stage = .sign) : Worked cfg s n j answer (s.sign n j answer) := by
  rw [sign]
  split_ifs
  · exact .moved (s.signatures + 1) s.locks (.signed hstage)
  · exact .moved s.signatures s.locks (.signFailed hstage)

theorem worked_broadcast (hstage : j.stage = .broadcast) :
    Worked cfg s n j answer (s.broadcast n j answer) := by
  rw [broadcast]
  split
  · exact .ended _
  · next tx htx =>
      refine .sent hstage htx ?_
      split_ifs
      · exact .inl rfl
      · exact .inr rfl

theorem worked_broadcastFailed (hstage : j.stage = .broadcastFailed) :
    Worked cfg s n j answer (s.broadcastFailed n j) := by
  rw [broadcastFailed]
  split_ifs with hlimit
  · exact .moved s.signatures s.locks (.atLimit hstage hlimit)
  · exact .moved s.signatures s.locks (.belowLimit hstage)

theorem worked_recover (hstage : j.stage = .recover) :
    Worked cfg s n j answer (s.recover n j answer) := by
  rw [recover]
  split_ifs
  · exact .ended _
  · exact .moved s.signatures s.locks (.found hstage)
  · exact .moved s.signatures s.locks (.notFound hstage)

theorem worked_failQueue {refundOnFinal : Bool} (hstage : j.stage = .fail refundOnFinal) :
    Worked cfg s n j answer (s.failQueue n j refundOnFinal) := by
  rw [failQueue]
  split
  · exact .ended _
  · next row hrow => exact .moved s.signatures s.locks (.readAttempts hstage hrow)

theorem worked_markQueue {isFinal refundOnFinal : Bool} (hstage : j.stage = .mark
    isFinal refundOnFinal) : Worked cfg s n j answer (s.markQueue n j isFinal refundOnFinal) := by
  cases isFinal with
  | false => exact .wrote _ (.retried hstage)
  | true =>
    cases refundOnFinal with
    | false => exact .wrote _ (.uncertain hstage)
    | true => exact .wrote s.locks (.failed hstage)

theorem worked_failWithdrawal (hstage : j.stage = .failWithdrawal) :
    Worked cfg s n j answer (s.failWithdrawal n j) := by
  rw [failWithdrawal]
  split
  · exact .ended _
  · next w hw => exact .failed hstage hw

theorem worked_refund (hstage : j.stage = .refund) :
    Worked cfg s n j answer (s.refund cfg n j) := by
  rw [refund]
  split
  · exact .ended _
  · next w hw =>
      split
      · exact .ended _
      · next currencyId hcurrency =>
          split
          · exact .ended _
          · next wallet hwallet => exact .refunded _ hstage hw hcurrency hwallet

theorem worked_finish (hstage : j.stage = .finish) :
    Worked cfg s n j answer (s.finish cfg n j) := by
  rw [finish]
  split
  · exact .wrote _ (.ended hstage (by decide))
  · next w hw =>
      split_ifs with hcancelled hcompleted
      · exact .wrote _ (.ended hstage (by decide))
      · exact .wrote _ (.ended hstage (by decide))
      · split
        · next hcurrency => exact .completed _ hstage hw hcompleted hcurrency
        · next currencyId hcurrency =>
            split
            · exact .ended _
            · next wallet hwallet => exact .paid _ hstage hw hcompleted hcurrency hwallet

theorem worked_of_work (hj : s.workers n = some j) :
    Worked cfg s n j answer (s.work cfg n answer) := by
  simp only [work, hj]
  cases hstage : j.stage with
  | claimed => exact worked_acquireLock hstage
  | locked => exact worked_check hstage
  | sign => exact worked_sign hstage
  | persist => exact .wrote s.locks (.persisted hstage)
  | broadcast => exact worked_broadcast hstage
  | broadcastFailed => exact worked_broadcastFailed hstage
  | requeue => exact .wrote _ (.requeued hstage)
  | recover => exact worked_recover hstage
  | finish => exact worked_finish hstage
  | fail refundOnFinal => exact worked_failQueue hstage
  | mark isFinal refundOnFinal => exact worked_markQueue hstage
  | failWithdrawal => exact worked_failWithdrawal hstage
  | refund => exact worked_refund hstage

def newWithdrawal (cfg : WithdrawalConfig) (r : WithdrawalRequest) : Withdrawal :=
  ⟨r.userId, r.tokenId, cfg.chainIdOfToken r.tokenId, toAmount r.amount, toAmount r.fee,
    r.accountType, if r.needsApproval then .pendingApproval else .pending, none⟩

def requestTotal (r : WithdrawalRequest) : ℚ := toAmount (toAmount r.amount + toAmount r.fee)

inductive Requested (cfg : WithdrawalConfig) (s : WithdrawalState) :
    WithdrawalAction → WithdrawalState → Prop
  | nothing {act : WithdrawalAction} : Requested cfg s act s
  | withdrawn {r : WithdrawalRequest} {currencyId : CurrencyId} {wallet : Wallet}
      (hcurrency : cfg.currencyIdForToken r.tokenId = some currencyId)
      (hwallet : s.wallet.lockFunds (s.lockKey cfg r currencyId (requestTotal r)) (requestTotal r)
        s.withdrawals.length = .ok wallet) :
      Requested cfg s (.withdraw r)
        { s with withdrawals := s.withdrawals ++ [newWithdrawal cfg r], wallet := wallet }
  | enqueued {id : WithdrawalId} {accepted : Bool} {w : Withdrawal}
      (hw : s.withdrawals[id]? = some w) (hstatus : w.status = .pending)
      (hrow : s.queue id = none) :
      Requested cfg s (.enqueue id accepted)
        { s with queue := update s.queue id (some ⟨.pending, none, 0⟩) }
  | approved {id : WithdrawalId} {w : Withdrawal} (hw : s.withdrawals[id]? = some w)
      (hstatus : w.status = .pendingApproval) :
      Requested cfg s (.approve id) (s.setWithdrawal id { w with status := .pending })
  | rejected {id : WithdrawalId} {w : Withdrawal} {currencyId : CurrencyId} {e : WithdrawalError}
      {wallet : Wallet} (hw : s.withdrawals[id]? = some w) (hstatus : w.status = .pendingApproval)
      (hcurrency : cfg.currencyIdForToken w.tokenId = some currencyId)
      (hwallet : s.wallet.giveBack (w.closingKey currencyId) w.total id (fun x => x) e =
        .ok wallet) :
      Requested cfg s (.reject id)
        { s.setWithdrawal id { w with status := .failed } with wallet := wallet }

theorem requested_orRollback {act : WithdrawalAction} {r : Except WithdrawalError WithdrawalState}
    (h : ∀ s', r = .ok s' → Requested cfg s act s') : Requested cfg s act (s.orRollback r) := by
  cases r with
  | error e => exact .nothing
  | ok s' => exact h s' rfl

theorem requested_withdraw {r : WithdrawalRequest} (h : s.withdraw cfg r = .ok s') :
    Requested cfg s (.withdraw r) s' := by
  simp only [withdraw, refuseIf_bind_eq_ok, orRefuse_bind_eq_ok] at h
  obtain ⟨-, currencyId, hcurrency, -, h⟩ := h
  obtain ⟨wallet, hwallet, h⟩ := bind_eq_ok.mp h
  obtain rfl := pure_eq_ok.mp h
  exact .withdrawn hcurrency hwallet

theorem requested_enqueue {accepted : Bool} (h : s.enqueueWithdrawal id accepted = .ok s') :
    Requested cfg s (.enqueue id accepted) s' := by
  simp only [enqueueWithdrawal, refuseIf_bind_eq_ok, orRefuse_bind_eq_ok] at h
  obtain ⟨w, hw, hstatus, h⟩ := h
  split_ifs at h with hskip
  · obtain rfl := pure_eq_ok.mp h
    exact .nothing
  · obtain rfl := pure_eq_ok.mp h
    rw [not_or, not_not] at hskip
    exact .enqueued hw (not_not.mp hstatus) hskip.2

theorem awaitingApproval_eq_ok {w : Withdrawal} (h : s.awaitingApproval id = .ok w) :
    s.withdrawals[id]? = some w ∧ w.status = .pendingApproval := by
  simp only [awaitingApproval, refuseIf_bind_eq_ok, orRefuse_bind_eq_ok] at h
  obtain ⟨w', hw, hstatus, h⟩ := h
  obtain rfl := pure_eq_ok.mp h
  exact ⟨hw, not_not.mp hstatus⟩

theorem requested_approve (h : s.approveWithdrawal id = .ok s') :
    Requested cfg s (.approve id) s' := by
  obtain ⟨w, hw, h⟩ := bind_eq_ok.mp h
  obtain ⟨hw, hstatus⟩ := awaitingApproval_eq_ok hw
  obtain rfl := pure_eq_ok.mp h
  exact .approved hw hstatus

theorem requested_reject (h : s.rejectWithdrawal cfg id = .ok s') :
    Requested cfg s (.reject id) s' := by
  obtain ⟨w, hw, h⟩ := bind_eq_ok.mp h
  obtain ⟨hw, hstatus⟩ := awaitingApproval_eq_ok hw
  obtain ⟨currencyId, hcurrency, h⟩ := orRefuse_bind_eq_ok.mp h
  obtain ⟨wallet, hwallet, h⟩ := bind_eq_ok.mp h
  obtain rfl := pure_eq_ok.mp h
  exact .rejected hw hstatus hcurrency hwallet

/-- No withdrawal can be cancelled: the update asks for a status that the check has excluded. -/
theorem cancelWithdrawal_refused (id : WithdrawalId) (userId : UserId) :
    s.cancelWithdrawal cfg id userId ≠ .ok s' := by
  intro h
  simp only [cancelWithdrawal, refuseIf_bind_eq_ok, orRefuse_bind_eq_ok, not_not] at h
  obtain ⟨w, -, hpending, -, hwaiting, -⟩ := h
  rw [hpending] at hwaiting
  cases hwaiting

inductive Stepped (cfg : WithdrawalConfig) (s : WithdrawalState) :
    WithdrawalAction → WithdrawalState → Prop
  | requested {act : WithdrawalAction} {s' : WithdrawalState} (h : Requested cfg s act s') :
      Stepped cfg s act s'
  | claimed {n : WorkerId} {id : WithdrawalId} {s' : WithdrawalState} (h : Claimed s n id s') :
      Stepped cfg s (.claim n id) s'
  | worked {n : WorkerId} {j : SigningJob} {answer : Answer} {s' : WithdrawalState}
      (hj : s.workers n = some j) (h : Worked cfg s n j answer s') :
      Stepped cfg s (.work n answer) s'
  | crashed (n : WorkerId) : Stepped cfg s (.crash n) (s.leave n)
  | expired (id : WithdrawalId) :
      Stepped cfg s (.expire id) { s with locks := update s.locks id none }
  | other (key : WalletKey) (available locked : ℚ) :
      Stepped cfg s (.other key available locked) (s.otherChange key available locked)

theorem stepped_of_step (act : WithdrawalAction) : Stepped cfg s act (s.step cfg act) := by
  cases act with
  | withdraw r => exact .requested (requested_orRollback fun _ => requested_withdraw)
  | enqueue id accepted => exact .requested (requested_orRollback fun _ => requested_enqueue)
  | approve id => exact .requested (requested_orRollback fun _ => requested_approve)
  | reject id => exact .requested (requested_orRollback fun _ => requested_reject)
  | cancel id userId =>
    exact .requested (requested_orRollback fun _ h => absurd h (cancelWithdrawal_refused _ _))
  | claim n id => exact .claimed (claimed_of_claim id)
  | work n answer =>
    cases hj : s.workers n with
    | none =>
      have hwork : s.work cfg n answer = s := by simp only [work, hj]
      rw [step, hwork]
      exact .requested .nothing
    | some j => exact .worked hj (worked_of_work hj)
  | crash n => exact .crashed n
  | expire id => exact .expired id
  | other key available locked => exact .other key available locked

end WithdrawalState

end MetherCEX
