import MetherCEX.Withdrawal.Changes

/-!
# At most one transaction per withdrawal

A worker that has a signed transaction from an earlier attempt broadcasts that one.
-/

namespace MetherCEX

open Run Option Function

namespace SigningJob

variable {j j' : SigningJob}

def First (status : QueueStatus) (j : SigningJob) : Prop :=
  match j.stage with
  | .claimed | .locked | .sign | .fail true | .mark _ true =>
    j.signedTx = none ∧ status = .signing
  | .persist => j.signedTx ≠ none ∧ status = .signing
  | .failWithdrawal | .refund => status = .failed
  | _ => False

/-- A worker on a row with the stored transaction `tx` and so many attempts. -/
def Later (attempts : ℕ) (tx : SignedTx) (j : SigningJob) : Prop :=
  j.signedTx = some tx ∧
    match j.stage with
    | .claimed | .locked | .broadcast | .broadcastFailed | .requeue | .finish => True
    | .recover | .fail false => maxAttempts ≤ attempts
    | .mark true false => True
    | _ => False

theorem Later.mono {attempts attempts' : ℕ} {tx : SignedTx} (h : j.Later attempts tx)
    (hle : attempts ≤ attempts') : j.Later attempts' tx := by
  obtain ⟨htx, hstage⟩ := h
  refine ⟨htx, ?_⟩
  split at hstage <;> first | trivial | exact hstage.trans hle

end SigningJob

namespace WithdrawalState

variable {cfg : WithdrawalConfig} {s s' : WithdrawalState} {n : WorkerId} {j j' : SigningJob}
  {answer : Answer} {id : WithdrawalId} {row : QueueRow} {tx : SignedTx}

/-- The worker `n` gets the lock and passes the checks, if it has a transaction. -/
def Proceeds (s : WithdrawalState) (n : WorkerId) (answer : Answer) : Prop :=
  ∀ j ∈ s.workers n, j.HasTx →
    (j.stage = .claimed → answer = .yes ∧ s.locks j.withdrawalId = none) ∧
    (j.stage = .locked → s.Signable j.withdrawalId ∧ answer = .yes)
  deriving Decidable

def RetriesProceed (s : WithdrawalState) : WithdrawalAction → Prop
  | .work n answer => s.Proceeds n answer
  | _ => True

instance (act) : Decidable (s.RetriesProceed act) := by
  cases act <;> dsimp only [RetriesProceed] <;> infer_instance

structure Unsigned (s : WithdrawalState) (id : WithdrawalId) (row : QueueRow) : Prop where
  signedTx : row.signedTx = none
  broadcasts : ∀ b ∈ s.broadcasts, b.withdrawalId ≠ id
  jobs : ∀ n j, s.workers n = some j → j.withdrawalId = id → j.First row.status
  alone : ∀ n m j k, s.workers n = some j → s.workers m = some k → j.withdrawalId = id →
    k.withdrawalId = id → n = m

structure Signed (s : WithdrawalState) (id : WithdrawalId) (row : QueueRow) (tx : SignedTx) :
    Prop where
  signedTx : row.signedTx = some tx
  status : row.status ≠ .pending
  broadcasts : ∀ b ∈ s.broadcasts, b.withdrawalId = id → b.tx = tx
  jobs : ∀ n j, s.workers n = some j → j.withdrawalId = id → j.Later row.attempts tx

inductive Phase (s : WithdrawalState) (id : WithdrawalId) : Prop
  | absent (hrow : s.queue id = none) (hbroadcasts : ∀ b ∈ s.broadcasts, b.withdrawalId ≠ id)
      (hjobs : ∀ n j, s.workers n = some j → j.withdrawalId ≠ id)
  | unsigned (row : QueueRow) (hrow : s.queue id = some row) (h : s.Unsigned id row)
  | signed (row : QueueRow) (tx : SignedTx) (hrow : s.queue id = some row)
      (h : s.Signed id row tx)

theorem Phase.frame (h : s.Phase id) (hqueue : s'.queue id = s.queue id)
    (hjobs : ∀ m k, s'.workers m = some k → k.withdrawalId = id → s.workers m = some k)
    (hbroadcasts : ∀ b ∈ s'.broadcasts, b.withdrawalId = id → b ∈ s.broadcasts) : s'.Phase id := by
  cases h with
  | absent hrow hnone hidle =>
    exact .absent (hqueue.trans hrow)
      (fun b hb hid => hnone b (hbroadcasts b hb hid) hid)
      (fun m k hk hid => hidle m k (hjobs m k hk hid) hid)
  | unsigned row hrow h =>
    refine .unsigned row (hqueue.trans hrow) ⟨h.signedTx, ?_, ?_, ?_⟩
    · exact fun b hb hid => h.broadcasts b (hbroadcasts b hb hid) hid
    · exact fun m k hk hid => h.jobs m k (hjobs m k hk hid) hid
    · intro m m' k k' hk hk' hid hid'
      exact h.alone m m' k k' (hjobs m k hk hid) (hjobs m' k' hk' hid') hid hid'
  | signed row tx hrow h =>
    refine .signed row tx (hqueue.trans hrow) ⟨h.signedTx, h.status, ?_, ?_⟩
    · exact fun b hb hid => h.broadcasts b (hbroadcasts b hb hid) hid
    · exact fun m k hk hid => h.jobs m k (hjobs m k hk hid) hid

theorem Phase.of_none (h : s.Phase id) (hrow : s.queue id = none) : (∀ b ∈ s.broadcasts,
    b.withdrawalId ≠ id) ∧ ∀ n j, s.workers n = some j → j.withdrawalId ≠ id := by
  cases h with
  | absent _ hbroadcasts hjobs => exact ⟨hbroadcasts, hjobs⟩
  | unsigned row hrow' | signed row tx hrow' =>
    exact absurd (hrow'.symm.trans hrow) (some_ne_none row)

theorem Phase.of_some (h : s.Phase id) (hrow : s.queue id = some row) :
    s.Unsigned id row ∨ ∃ tx, s.Signed id row tx := by
  cases h with
  | absent hrow' => exact absurd (hrow.symm.trans hrow') (some_ne_none row)
  | unsigned row' hrow' h =>
    obtain rfl : row = row' := some.inj (hrow.symm.trans hrow')
    exact .inl h
  | signed row' tx hrow' h =>
    obtain rfl : row = row' := some.inj (hrow.symm.trans hrow')
    exact .inr ⟨tx, h⟩

theorem Phase.row_of_job (h : s.Phase j.withdrawalId) (hj : s.workers n = some j) :
    ∃ row, s.queue j.withdrawalId = some row ∧ (s.Unsigned j.withdrawalId row ∧
    j.First row.status ∨ ∃ tx, s.Signed j.withdrawalId row tx ∧ j.Later row.attempts tx) := by
  cases h with
  | absent _ _ hjobs => exact absurd rfl (hjobs n j hj)
  | unsigned row hrow h => exact ⟨row, hrow, .inl ⟨h, h.jobs n j hj rfl⟩⟩
  | signed row tx hrow h => exact ⟨row, hrow, .inr ⟨tx, h, h.jobs n j hj rfl⟩⟩

theorem queue_updateRow_self (hrow : s.queue id = some row) (f : QueueRow → QueueRow) :
    (s.updateRow id f).queue id = some (f row) := by
  simp [updateRow, hrow]

theorem first_of_moves {status : QueueStatus} (h : j.First status) (hmoves : Moves s j answer j') :
    j'.First status := by
  cases hmoves with
  | locked hstage | checkFailed hstage _ | signFailed hstage | belowLimit hstage
  | atLimit hstage _ | found hstage | notFound hstage =>
    simp only [SigningJob.First, hstage] at h ⊢
    try exact h
  | checked hstage =>
    simp only [SigningJob.First, hstage] at h ⊢
    rw [if_pos h.1]
    exact h
  | signed hstage =>
    simp only [SigningJob.First, hstage] at h ⊢
    exact ⟨some_ne_none _, h.2⟩
  | readAttempts hstage _ =>
    rename_i refundOnFinal row _
    cases refundOnFinal with
    | false => simp only [SigningJob.First, hstage] at h
    | true =>
      simp only [SigningJob.First, hstage] at h ⊢
      exact h

theorem later_of_moves (h : j.Later row.attempts tx) (hrow : s.queue j.withdrawalId = some row)
    (hproceeds : j.stage = .locked → s.Signable j.withdrawalId ∧ answer = .yes)
    (hmoves : Moves s j answer j') : j'.Later row.attempts tx := by
  obtain ⟨htx, hstages⟩ := h
  cases hmoves with
  | locked hstage | belowLimit hstage | found hstage => exact ⟨htx, trivial⟩
  | checked hstage =>
    refine ⟨htx, ?_⟩
    rw [htx]
    trivial
  | checkFailed hstage hfailed => exact absurd (hproceeds hstage) hfailed
  | signed hstage | signFailed hstage =>
    simp only [hstage] at hstages
  | atLimit hstage hlimit =>
    obtain ⟨row', hrow', hle⟩ := hlimit
    obtain rfl : row = row' := some.inj (hrow.symm.trans hrow')
    exact ⟨htx, hle⟩
  | notFound hstage =>
    simp only [hstage] at hstages
    exact ⟨htx, hstages⟩
  | readAttempts hstage hrow' =>
    rename_i refundOnFinal row'
    obtain rfl : row = row' := some.inj (hrow.symm.trans hrow')
    cases refundOnFinal with
    | true => simp only [hstage] at hstages
    | false =>
      simp only [hstage] at hstages
      refine ⟨htx, ?_⟩
      simp only [decide_eq_true hstages]

variable {j' : Option SigningJob} {id' : WithdrawalId} {act : WithdrawalAction}

theorem Unsigned.of_update (htx : row.signedTx = none) (hbroadcasts : ∀ b ∈ s'.broadcasts,
    b.withdrawalId ≠ id) (hworkers : s'.workers = update s.workers n j')
    (hothers : ∀ m k, m ≠ n → s.workers m = some k → k.withdrawalId ≠ id)
    (hj' : ∀ k ∈ j', k.First row.status) : s'.Unsigned id row := by
  have honly : ∀ m k, s'.workers m = some k → k.withdrawalId = id → m = n ∧ j' = some k := by
    intro m k hk hid
    rw [hworkers] at hk
    rcases update_eq_some hk with h | ⟨hm, hk⟩
    · exact h
    · exact absurd hid (hothers m k hm hk)
  refine ⟨htx, hbroadcasts, ?_, ?_⟩
  · intro m k hk hid
    exact hj' k (honly m k hk hid).2
  · intro m m' k k' hk hk' hid hid'
    rw [(honly m k hk hid).1, (honly m' k' hk' hid').1]

theorem Signed.of_update {attempts : ℕ} (htx : row.signedTx = some tx) (hstatus : row.status ≠
    .pending) (hbroadcasts : ∀ b ∈ s'.broadcasts, b.withdrawalId = id → b.tx = tx)
    (hworkers : s'.workers = update s.workers n j') (hothers : ∀ m k, m ≠ n → s.workers m =
    some k → k.withdrawalId = id → k.Later attempts tx) (hle : attempts ≤ row.attempts)
    (hj' : ∀ k ∈ j', k.Later row.attempts tx) : s'.Signed id row tx := by
  refine ⟨htx, hstatus, hbroadcasts, ?_⟩
  intro m k hk hid
  rw [hworkers] at hk
  rcases update_eq_some hk with ⟨-, hk⟩ | ⟨hm, hk⟩
  · exact hj' k hk
  · exact (hothers m k hm hk hid).mono hle

theorem Unsigned.others (h : s.Unsigned j.withdrawalId row) (hj : s.workers n = some j)
    (m : WorkerId) (k : SigningJob) (hm : m ≠ n) (hk : s.workers m = some k) :
    k.withdrawalId ≠ j.withdrawalId :=
  fun hid => hm (h.alone m n k j hk hj hid rfl)

theorem Unsigned.worked (h : s.Unsigned j.withdrawalId row)
    (hrow : s.queue j.withdrawalId = some row) (hj : s.workers n = some j)
    (hworked : Worked cfg s n j answer s') : s'.Phase j.withdrawalId := by
  have hfirst : j.First row.status := h.jobs n j hj rfl
  have hothers := h.others hj
  have hempty : ∀ status, ∀ k ∈ (none : Option SigningJob), k.First status :=
    fun _ _ hk => nomatch hk
  cases hworked with
  | ended | refunded =>
    exact .unsigned row hrow (.of_update h.signedTx h.broadcasts rfl hothers (hempty _))
  | moved _ _ hmoves =>
    refine .unsigned row hrow (.of_update h.signedTx h.broadcasts rfl hothers ?_)
    rintro k ⟨⟩
    exact first_of_moves hfirst hmoves
  | failed hstage =>
    refine .unsigned row hrow (.of_update h.signedTx h.broadcasts rfl hothers ?_)
    rintro k ⟨⟩
    simpa only [SigningJob.First, hstage] using hfirst
  | sent hstage | completed _ hstage | paid _ hstage =>
    simp only [SigningJob.First, hstage] at hfirst
  | wrote _ hwrites =>
    have hrow' := queue_updateRow_self hrow
    cases hwrites with
    | lockFailed hstage | retried hstage =>
      exact .unsigned _ (hrow' _) (.of_update h.signedTx h.broadcasts rfl hothers (hempty _))
    | persisted hstage =>
      simp only [SigningJob.First, hstage] at hfirst
      obtain ⟨tx, htx⟩ := ne_none_iff_exists'.mp hfirst.1
      refine .signed _ tx (hrow' _) (.of_update htx (by simp) ?_ rfl ?_ le_rfl ?_)
      · exact fun b hb hid => absurd hid (h.broadcasts b hb)
      · exact fun m k hm hk hid => absurd hid (hothers m k hm hk)
      · rintro k ⟨⟩
        exact ⟨htx, trivial⟩
    | failed hstage =>
      refine .unsigned _ (hrow' _) (.of_update h.signedTx h.broadcasts rfl hothers ?_)
      rintro k ⟨⟩
      rfl
    | requeued hstage | uncertain hstage | ended hstage =>
      simp only [SigningJob.First, hstage] at hfirst

theorem Signed.worked (h : s.Signed j.withdrawalId row tx) (hrow : s.queue j.withdrawalId =
    some row) (hj : s.workers n = some j) (hproceeds : s.Proceeds n answer)
    (hworked : Worked cfg s n j answer s') : s'.Phase j.withdrawalId := by
  have hlater : j.Later row.attempts tx := h.jobs n j hj rfl
  have hhas : j.HasTx := by
    rw [SigningJob.HasTx, hlater.1]
    exact some_ne_none tx
  obtain ⟨hlock, hcheck⟩ := hproceeds j hj hhas
  have hothers : ∀ m k, m ≠ n → s.workers m = some k → k.withdrawalId = j.withdrawalId →
      k.Later row.attempts tx := fun m k _ hk hid => h.jobs m k hk hid
  have hempty : ∀ attempts, ∀ k ∈ (none : Option SigningJob), k.Later attempts tx :=
    fun _ _ hk => nomatch hk
  have hrow' := queue_updateRow_self hrow
  obtain ⟨htx, hstages⟩ := id hlater
  cases hworked with
  | ended =>
    exact .signed row tx hrow
      (.of_update h.signedTx h.status h.broadcasts rfl hothers le_rfl (hempty _))
  | moved _ _ hmoves =>
    refine .signed row tx hrow
      (.of_update h.signedTx h.status h.broadcasts rfl hothers le_rfl ?_)
    rintro k ⟨⟩
    exact later_of_moves hlater hrow hcheck hmoves
  | sent hstage hsent hnext =>
    refine .signed row tx hrow (.of_update h.signedTx h.status ?_ rfl hothers le_rfl ?_)
    · intro b hb hid
      rcases List.mem_append.mp hb with hb | hb
      · exact h.broadcasts b hb hid
      · obtain rfl := List.mem_singleton.mp hb
        exact some.inj (hsent.symm.trans htx)
    · rintro k ⟨⟩
      rcases hnext with rfl | rfl <;> exact ⟨htx, trivial⟩
  | completed | paid =>
    exact .signed _ tx (hrow' _)
      (.of_update h.signedTx (by simp) h.broadcasts rfl hothers le_rfl (hempty _))
  | refunded _ hstage | failed hstage => simp only [hstage] at hstages
  | wrote _ hwrites =>
    cases hwrites with
    | lockFailed hstage hfailed => exact absurd (hlock hstage) hfailed
    | requeued | uncertain =>
      exact .signed _ tx (hrow' _)
        (.of_update h.signedTx (by simp) h.broadcasts rfl hothers le_rfl (hempty _))
    | ended hstage hstatus =>
      exact .signed _ tx (hrow' _)
        (.of_update h.signedTx hstatus h.broadcasts rfl hothers le_rfl (hempty _))
    | persisted hstage | failed hstage | retried hstage => simp only [hstage] at hstages

theorem Phase.worked (h : ∀ id, s.Phase id) (hj : s.workers n = some j) (hproceeds : s.Proceeds
    n answer) (hworked : Worked cfg s n j answer s') (id : WithdrawalId) : s'.Phase id := by
  by_cases hid : id = j.withdrawalId
  · subst hid
    obtain ⟨row, hrow, ⟨h, -⟩ | ⟨tx, h, -⟩⟩ := (h j.withdrawalId).row_of_job hj
    · exact h.worked hrow hj hworked
    · exact h.worked hrow hj hproceeds hworked
  · exact (h id).frame (hworked.queue_of_ne hid) (fun m k => hworked.workers_of_ne hid)
      (fun b => hworked.broadcasts_of_ne hid)

theorem Unsigned.idle (h : s.Unsigned id row) (hpending : row.status = .pending) (m : WorkerId)
    (k : SigningJob) (hk : s.workers m = some k) : k.withdrawalId ≠ id := by
  intro hid
  have hfirst := h.jobs m k hk hid
  rw [SigningJob.First, hpending] at hfirst
  split at hfirst <;> simp at hfirst

theorem Phase.afterClaim_of_ne (h : s.Phase id) (hid : id ≠ id') (signedTx : Option SignedTx) :
    (s.afterClaim n id' row signedTx).Phase id := by
  refine h.frame (update_of_ne hid _ _) ?_ (fun b hb _ => hb)
  intro m k hk hkid
  rcases update_eq_some hk with ⟨-, hk⟩ | ⟨-, hk⟩
  · cases hk
    exact absurd hkid.symm hid
  · exact hk

theorem Phase.claim (h : ∀ id, s.Phase id) (hclaimed : Claimed s n id' s') (id : WithdrawalId) :
    s'.Phase id := by
  cases hclaimed with
  | nothing => exact h id
  | @first row hrow hstatus =>
    by_cases hid : id = id'
    · subst hid
      rcases (h id).of_some hrow with h | ⟨tx, h⟩
      · refine .unsigned _ (update_self id _ s.queue) (.of_update h.signedTx
          h.broadcasts rfl (fun m k _ hk => h.idle hstatus m k hk) ?_)
        rintro k ⟨⟩
        exact ⟨rfl, rfl⟩
      · exact absurd hstatus h.status
    · exact (h id).afterClaim_of_ne hid none
  | @again row hrow hstatus htx =>
    by_cases hid : id = id'
    · subst hid
      rcases (h id).of_some hrow with h | ⟨tx, h⟩
      · exact absurd h.signedTx htx
      · refine .signed _ tx (update_self id _ s.queue) (.of_update h.signedTx (by simp)
          h.broadcasts rfl (fun m k _ hk hid => h.jobs m k hk hid) (Nat.le_succ _) ?_)
        rintro k ⟨⟩
        exact ⟨h.signedTx, trivial⟩
    · exact (h id).afterClaim_of_ne hid row.signedTx

theorem Phase.requested (h : ∀ id, s.Phase id) (hrequested : Requested cfg s act s')
    (id : WithdrawalId) : s'.Phase id := by
  cases hrequested with
  | nothing => exact h id
  | withdrawn | approved | rejected =>
    exact (h id).frame rfl (fun _ _ hk _ => hk) (fun _ hb _ => hb)
  | @enqueued id' _ w hw hstatus hrow =>
    by_cases hid : id = id'
    · subst hid
      obtain ⟨hbroadcasts, hjobs⟩ := (h id).of_none hrow
      refine .unsigned _ (update_self id _ s.queue) ⟨rfl, hbroadcasts, ?_, ?_⟩
      · exact fun n j hj hid => absurd hid (hjobs n j hj)
      · exact fun n m j k hj _ hid _ => absurd hid (hjobs n j hj)
    · exact (h id).frame (update_of_ne hid _ _) (fun _ _ hk _ => hk)
        (fun _ hb _ => hb)

theorem Phase.step (h : ∀ id, s.Phase id) (hact : s.RetriesProceed act)
    (hstep : Stepped cfg s act s') (id : WithdrawalId) : s'.Phase id := by
  cases hstep with
  | requested hrequested => exact .requested h hrequested id
  | claimed hclaimed => exact .claim h hclaimed id
  | worked hj hworked => exact .worked h hj hact hworked id
  | crashed n =>
    refine (h id).frame rfl ?_ (fun _ hb _ => hb)
    intro m k hk _
    rcases update_eq_some hk with ⟨-, hk⟩ | ⟨-, hk⟩
    · cases hk
    · exact hk
  | expired | other => exact (h id).frame rfl (fun _ _ hk _ => hk) (fun _ hb _ => hb)

theorem phase_init (start : WalletKey → WalletRow) (id : WithdrawalId) : (init start).Phase id :=
  .absent rfl (fun _ hb => nomatch hb) (fun _ _ hj => nomatch hj)

def OneTransaction (s : WithdrawalState) : Prop :=
  ∀ b ∈ s.broadcasts, ∀ b' ∈ s.broadcasts, b.withdrawalId = b'.withdrawalId → b.tx = b'.tx
  deriving Decidable

theorem Phase.tx_eq (h : s.Phase id) {b b' : Broadcast} (hb : b ∈ s.broadcasts) (hb' : b' ∈
    s.broadcasts) (hid : b.withdrawalId = id) (hid' : b'.withdrawalId = id) : b.tx = b'.tx := by
  cases h with
  | absent _ hnone => exact absurd hid (hnone b hb)
  | unsigned row _ h => exact absurd hid (h.broadcasts b hb)
  | signed row tx _ h => rw [h.broadcasts b hb hid, h.broadcasts b' hb' hid']

theorem phase_run (start : WalletKey → WalletRow) (acts : List WithdrawalAction) (h : Along (step
    cfg) RetriesProceed (init start) acts) (id : WithdrawalId) : (run cfg start acts).Phase id :=
  h.invariant (P := fun s => ∀ id, s.Phase id) (phase_init start)
    (fun _ act hphase hact => Phase.step hphase hact (stepped_of_step act)) id

/-- If every worker with a signed transaction of an earlier attempt gets its lock and passes the
checks, then in every run all broadcasts of a withdrawal carry the same transaction. -/
theorem one_transaction_per_withdrawal (cfg : WithdrawalConfig) (start : WalletKey → WalletRow)
    (acts : List WithdrawalAction) (h : Along (step cfg) RetriesProceed (init start) acts) :
    (run cfg start acts).OneTransaction :=
  fun b hb _ hb' hid => (phase_run start acts h b.withdrawalId).tx_eq hb hb' rfl hid.symm

def ethConfig : WithdrawalConfig := ⟨fun _ => some 1, fun _ => "eth"⟩

def tenCoins : WalletKey → WalletRow := fun _ => ⟨10, 0, 0, 0⟩

def threeCoins : WithdrawalRequest := ⟨7, 1, 3, 0, .funding, false⟩

/-- A worker claims the withdrawal and gets as far as storing the signed transaction. -/
def signFirst (n : WorkerId) : List WithdrawalAction :=
  [.claim n 0, .work n .yes, .work n .yes, .work n .yes, .work n .yes]

def lostAnswerRun : List WithdrawalAction :=
  [.withdraw threeCoins, .enqueue 0 true] ++ signFirst 0 ++
    [.work 0 .lost, .work 0 .yes, .work 0 .yes, .claim 1 0, .work 1 .yes, .work 1 .yes,
      .work 1 .yes, .work 1 .yes]

theorem lostAnswerRun_one_transaction :
    (run ethConfig tenCoins lostAnswerRun).broadcasts = [⟨0, 0, true⟩, ⟨0, 0, true⟩] ∧
      (run ethConfig tenCoins lostAnswerRun).OneTransaction :=
  ⟨by decide +kernel,
    one_transaction_per_withdrawal ethConfig tenCoins lostAnswerRun (by decide +kernel)⟩

/-- The second worker claims the row while the first still has the lock, and sets it back. -/
def secondSignatureRun : List WithdrawalAction :=
  [.withdraw threeCoins, .enqueue 0 true] ++ signFirst 0 ++
    [.claim 1 0, .work 1 .yes, .work 0 .yes, .expire 0] ++ signFirst 2 ++ [.work 2 .yes]

/-- Two different transactions of one withdrawal reach the chain. -/
theorem two_transactions_broadcast :
    (run ethConfig tenCoins secondSignatureRun).broadcasts = [⟨0, 0, true⟩, ⟨0, 1, true⟩] ∧
      ¬ (run ethConfig tenCoins secondSignatureRun).OneTransaction := by
  decide +kernel

end WithdrawalState

end MetherCEX
