import MetherCEX.Deposit.Model
import MetherCEX.Lib.Table

/-!
# What a step can do to the deposits

`Change` lists what a step can do: a process goes on or leaves its transaction, perhaps with a
single statement on a row that nobody has locked; it locks a row, writes without or with a
credit, and commits; or a row is inserted or a balance gets something pending.
-/

namespace MetherCEX

def DepositStage.Quiet : DepositStage → Prop
  | .locked _ | .written _ => False
  | _ => True

structure Deposit.SameData (d d' : Deposit) : Prop where
  userId : d'.userId = d.userId
  currencyId : d'.currencyId = d.currencyId
  toAddress : d'.toAddress = d.toAddress
  amount : d'.amount = d.amount

theorem Deposit.SameData.refl (d : Deposit) : d.SameData d := ⟨rfl, rfl, rfl, rfl⟩

theorem Deposit.SameData.trans {d d' d'' : Deposit} (h : d.SameData d') (h' : d'.SameData d'') :
    d.SameData d'' :=
  ⟨h'.userId.trans h.userId, h'.currencyId.trans h.currencyId, h'.toAddress.trans h.toAddress,
    h'.amount.trans h.amount⟩

/-- What a transaction writes that credits nothing: the sanctions check has refused, the amount
is too small for eight places, or the currency is gone. -/
inductive DepositJob.NoCredit (cfg : DepositConfig) (d : Deposit) : DepositJob → Deposit → Prop
  | flagged (id : DepositId) (hsanctions : cfg.allows d = false) :
      NoCredit cfg d (.creditDepositIfConfirmed id) { d with isFlagged := true }
  | tooSmall (id : DepositId) :
      NoCredit cfg d (.applyBalanceForOneCompletedDeposit id) { d with applied := true }
  | noCurrency (listed : ListedDeposit) : NoCredit cfg d (.confirmDeposit listed) d.completed

namespace DepositState

variable {cfg : DepositConfig} {s s' : DepositState} {p : CreditorId} {job : DepositJob}
  {rest : List DepositJob} {answer : ChainAnswer}

/-- A single statement on a row that nobody has locked, or none. -/
inductive Updated (s : DepositState) : List Deposit → Prop
  | same : Updated s s.deposits
  | confirmed {id : DepositId} {d : Deposit} (confirmations : ℤ)
      (hd : s.deposits[id]? = some d) (hfree : s.locks (.deposit id) = none) :
      Updated s (s.deposits.set id (d.confirmed confirmations))
  | failed {id : DepositId} {d : Deposit} (hd : s.deposits[id]? = some d)
      (hfree : s.locks (.deposit id) = none) :
      Updated s (s.deposits.set id { d with status := .failed })

def Known (s : DepositState) : DepositJob → Prop
  | .confirmDeposit listed | .creditConfirmedDeposit listed =>
    ∃ d, s.deposits[listed.id]? = some d ∧ d.SameData listed.row
  | _ => True

inductive Change (cfg : DepositConfig) (s : DepositState) : DepositAction → DepositState → Prop
  | moved {act : DepositAction} {p : CreditorId} {jobs : List DepositJob} {stage : DepositStage}
      {deposits : List Deposit} {locks : LockTable DepositResource CreditorId}
      (hdeposits : Updated s deposits) (hlocks : locks = s.locks ∨ locks = s.locks.release p)
      (hjobs : ∀ job ∈ jobs, job ∈ (s.processes p).jobs ∨ s.Known job) (hstage : stage.Quiet) :
      Change cfg s act { s with
        deposits := deposits
        locks := locks
        processes := Function.update s.processes p ⟨jobs, stage⟩ }
  | updated {act : DepositAction} {deposits : List Deposit} (hdeposits : Updated s deposits) :
      Change cfg s act { s with deposits := deposits }
  | locked {p : CreditorId} {answer : ChainAnswer} {job : DepositJob} {rest : List DepositJob}
      {d : Deposit} (hp : s.processes p = ⟨job :: rest, .opening⟩)
      (hd : s.deposits[job.depositId]? = some d)
      (hfree : s.locks (.deposit job.depositId) = none) (htakes : job.Takes d) :
      Change cfg s (.work p answer) (s.enter p job rest (.deposit job.depositId) (.locked d))
  | written {p : CreditorId} {answer : ChainAnswer} {job : DepositJob} {rest : List DepositJob}
      {d row : Deposit} (hp : s.processes p = ⟨job :: rest, .locked d⟩)
      (hrow : job.NoCredit cfg d row) :
      Change cfg s (.work p answer) (s.proceed p job rest (.written ⟨row, none⟩))
  | credited {p : CreditorId} {answer : ChainAnswer} {job : DepositJob} {rest : List DepositJob}
      {d : Deposit} (hp : s.processes p = ⟨job :: rest, .locked d⟩)
      (hfree : s.locks (.balance (job.source d).ownerKey) = none)
      (hsanctions : job.path = .confirmed → cfg.allows d = true) :
      Change cfg s (.work p answer)
        (s.enter p job rest (.balance (job.source d).ownerKey)
          (.written (job.creditWrite d (s.wallet.balances (job.source d).ownerKey))))
  | committed {p : CreditorId} {answer : ChainAnswer} {job : DepositJob} {rest : List DepositJob}
      {w : DepositWrite} (hp : s.processes p = ⟨job :: rest, .written w⟩) :
      Change cfg s (.work p answer) ((s.apply job.depositId w).leave p rest)
  | recorded {act : DepositAction} {d : Deposit} (hstatus : d.status = .pending)
      (happlied : d.applied = false) :
      Change cfg s act { s with deposits := s.deposits ++ [d] }
  | pended {act : DepositAction} {key : WalletKey} (amount : ℚ)
      (hfree : s.locks (.balance key) = none) :
      Change cfg s act { s with
        wallet := s.wallet.write key
          { s.wallet.balances key with pending := (s.wallet.balances key).pending + amount } [] }

theorem change_nothing {act : DepositAction} : Change cfg s act s := .updated .same

section Stages

variable (hjobs : (s.processes p).jobs = job :: rest)

include hjobs

variable {deposits : List Deposit} {act : DepositAction}

theorem change_leave (hdeposits : Updated s deposits) :
    Change cfg s act ({ s with deposits := deposits }.leave p rest) := by
  refine .moved hdeposits (.inr rfl) ?_ trivial
  intro job' hjob'
  rw [hjobs]
  exact .inl (List.mem_cons_of_mem job hjob')

theorem change_proceed {stage : DepositStage} (hdeposits : Updated s deposits)
    (hstage : stage.Quiet) :
    Change cfg s act ({ s with deposits := deposits }.proceed p job rest stage) := by
  refine .moved hdeposits (.inl rfl) ?_ hstage
  intro job' hjob'
  rw [hjobs]
  exact .inl hjob'

theorem change_compareConfirmations {enough : DepositStage} (hdeposits : Updated s deposits)
    (henough : enough.Quiet) (listed : ListedDeposit) (confirmations : ℤ) :
    Change cfg s act ({ s with deposits := deposits }.compareConfirmations p job rest listed
      confirmations enough) := by
  rw [compareConfirmations]
  split_ifs
  · exact change_proceed hjobs hdeposits henough
  · exact change_leave hjobs hdeposits

theorem change_countConfirmations {enough : DepositStage} (henough : enough.Quiet)
    (listed : ListedDeposit) (confirmations : ℤ) :
    Change cfg s act (s.countConfirmations p job rest listed confirmations enough) := by
  rw [countConfirmations, updateDeposit]
  split
  · exact change_compareConfirmations hjobs .same henough listed confirmations
  · next d hd =>
      split_ifs with hfree
      · exact change_compareConfirmations hjobs (.confirmed confirmations hd hfree) henough listed
          confirmations
      · exact change_nothing

theorem change_ready : Change cfg s act (s.ready cfg p job rest answer) := by
  unfold ready
  split
  · exact change_proceed hjobs .same trivial
  · exact change_proceed hjobs .same trivial
  · split_ifs
    · exact change_countConfirmations hjobs (by trivial) _ _
    · exact change_leave hjobs .same
  · split_ifs
    · exact change_compareConfirmations hjobs .same (by trivial) _ _
    · exact change_countConfirmations hjobs (by trivial) _ _
  · exact change_leave hjobs .same

theorem change_verify : Change cfg s act (s.verify p job rest answer) := by
  unfold verify
  split
  · exact change_proceed hjobs .same trivial
  · rw [updateDeposit]
    split
    · exact change_leave hjobs .same
    · next d hd =>
        split_ifs with hfree
        · exact change_leave hjobs (.failed hd hfree)
        · exact change_nothing
  · exact change_leave hjobs .same

theorem change_openTransaction (hstage : (s.processes p).stage = .opening) :
    Change cfg s (.work p answer) (s.openTransaction p job rest) := by
  rw [openTransaction]
  split
  · exact change_leave hjobs .same
  · next d hd =>
      split_ifs with hfree htakes
      · exact change_nothing
      · refine .locked ?_ hd (not_not.mp hfree) htakes
        rw [← hjobs, ← hstage]
      · exact change_leave hjobs .same

theorem change_credit {d : Deposit} (hstage : (s.processes p).stage = .locked d)
    (hsanctions : job.path = .confirmed → cfg.allows d = true) :
    Change cfg s (.work p answer) (s.credit p job rest d) := by
  simp only [credit]
  split_ifs with hfree
  · exact change_nothing
  · refine .credited ?_ (not_not.mp hfree) hsanctions
    rw [← hjobs, ← hstage]
  · exact change_leave hjobs .same

theorem change_write {d : Deposit} (hstage : (s.processes p).stage = .locked d) :
    Change cfg s (.work p answer) (s.write cfg p job rest answer d) := by
  have hp : s.processes p = ⟨job :: rest, .locked d⟩ := by rw [← hjobs, ← hstage]
  cases job with
  | creditDepositIfConfirmed id =>
    simp only [write]
    split_ifs with hsmall hallows
    · exact change_leave hjobs .same
    · exact change_credit hjobs hstage fun _ => hallows
    · exact .written hp (.flagged id (Bool.eq_false_iff.mpr hallows))
  | applyBalanceForOneCompletedDeposit id =>
    simp only [write]
    split_ifs
    · exact .written hp (.tooSmall id)
    · exact change_credit hjobs hstage nofun
  | confirmDeposit listed =>
    simp only [write]
    split_ifs
    · exact change_credit hjobs hstage nofun
    · exact .written hp (.noCurrency listed)
  | creditConfirmedDeposit listed =>
    simp only [write]
    split_ifs
    · exact change_credit hjobs hstage nofun
    · exact change_leave hjobs .same

theorem change_commit {w : DepositWrite} (hstage : (s.processes p).stage = .written w) :
    Change cfg s (.work p answer) (s.commit p job rest answer w) := by
  rw [commit]
  split_ifs
  · refine .committed ?_
    rw [← hjobs, ← hstage]
  · exact change_leave hjobs .same

end Stages

theorem change_work (p : CreditorId) (answer : ChainAnswer) :
    Change cfg s (.work p answer) (s.work cfg p answer) := by
  rw [work]
  split
  · exact change_nothing
  · next job rest hjobs =>
      cases hstage : (s.processes p).stage with
      | ready => exact change_ready hjobs
      | verify => exact change_verify hjobs
      | opening => exact change_openTransaction hjobs hstage
      | locked d => exact change_write hjobs hstage
      | written w => exact change_commit hjobs hstage

theorem getElem?_of_mem_rowsWhere {P : Deposit → Bool} {listed : ListedDeposit}
    (h : listed ∈ s.rowsWhere P) : s.deposits[listed.id]? = some listed.row := by
  obtain ⟨⟨d, i⟩, hmem, rfl⟩ := List.mem_map.mp h
  exact List.mem_zipIdx_iff_getElem?.mp (List.mem_filter.mp hmem).1

theorem known_of_jobsOf {c : DepositCall} (h : job ∈ s.jobsOf cfg c) : s.Known job := by
  cases c with
  | creditDepositIfConfirmed id | applyBalanceForOneCompletedDeposit id =>
    obtain rfl := List.mem_singleton.mp h
    trivial
  | creditOverdueDepositsForUser userId =>
    obtain ⟨listed, -, rfl⟩ := List.mem_map.mp h
    trivial
  | checkPendingDeposits | creditReadyDepositsForChain chainId =>
    obtain ⟨listed, hlisted, rfl⟩ := List.mem_map.mp h
    exact ⟨listed.row, getElem?_of_mem_rowsWhere (List.mem_of_mem_take hlisted), .refl _⟩

theorem change_of_step (act : DepositAction) : Change cfg s act (s.step cfg act) := by
  cases act with
  | call p c =>
    rw [step, call]
    split_ifs
    · exact .moved .same (.inl rfl) (fun job hjob => .inr (known_of_jobsOf hjob)) trivial
    · exact change_nothing
  | work p answer => exact change_work p answer
  | crash p => exact .moved .same (.inr rfl) (fun job hjob => nomatch hjob) trivial
  | record d =>
    rw [step, record]
    split_ifs
    · exact change_nothing
    · exact .recorded rfl rfl
  | bumpConfirmations id confirmations =>
    rw [step, bumpConfirmations, updateDeposit]
    split
    · exact change_nothing
    · next d hd =>
        split_ifs with hfree
        · exact .updated (.confirmed _ hd hfree)
        · exact change_nothing
  | updatePendingBalance key amount =>
    rw [step, updatePendingBalance]
    split_ifs with hfree
    · exact change_nothing
    · exact .pended amount (not_not.mp hfree)

end DepositState

end MetherCEX
