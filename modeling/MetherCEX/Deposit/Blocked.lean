import MetherCEX.Deposit.Credits

/-!
# Blocked deposits

A deposit is blocked if it is flagged or if the sanctions check refuses it. Only
`creditDepositIfConfirmed` looks at either.
-/

namespace MetherCEX

open Run Table Function

namespace Deposit

variable {cfg : DepositConfig} {d d' : Deposit}

def Blocked (cfg : DepositConfig) (d : Deposit) : Prop :=
  d.isFlagged = true ∨ cfg.allows d = false
  deriving Decidable

/-- `applyBalanceForOneCompletedDeposit` would credit the row. -/
def Repairable (d : Deposit) : Prop :=
  d.status = .completed ∧ d.credited = true ∧ d.applied = false
  deriving Decidable

theorem SameData.allows_eq (h : d.SameData d') : cfg.allows d' = cfg.allows d := by
  simp only [DepositConfig.allows, h.userId, h.currencyId, h.toAddress, h.amount]

theorem not_blocked_of_flag (h : ¬ d.Blocked cfg) (hdata : d.SameData d')
    (hflag : d'.isFlagged = d.isFlagged) : ¬ d'.Blocked cfg := by
  rw [Blocked, hflag, hdata.allows_eq]
  exact h

theorem not_repairable_of_applied (h : d.applied = true) : ¬ d.Repairable :=
  fun hrepairable => Bool.false_ne_true (hrepairable.2.2.symm.trans h)

end Deposit

open Deposit

namespace DepositJob

theorem Takes.not_blocked {cfg : DepositConfig} {job : DepositJob} {d : Deposit} (h : job.Takes d)
    (hpath : job.path = .confirmed) (hallows : cfg.allows d = true) : ¬ d.Blocked cfg := by
  cases job with
  | creditDepositIfConfirmed id =>
    rintro (hflag | hrefused)
    · exact Bool.false_ne_true (h.2.1.symm.trans hflag)
    · exact Bool.false_ne_true (hrefused.symm.trans hallows)
  | applyBalanceForOneCompletedDeposit | confirmDeposit | creditConfirmedDeposit => cases hpath

theorem isFlagged_creditedRow (job : DepositJob) (d : Deposit) :
    (job.creditedRow d).isFlagged = d.isFlagged := by
  cases job <;> rfl

theorem NoCredit.not_repairable {cfg : DepositConfig} {job : DepositJob} {d row : Deposit}
    (h : job.NoCredit cfg d row) (htakes : job.Takes d) : ¬ row.Repairable := by
  cases h with
  | flagged =>
    rintro ⟨hcompleted, -, -⟩
    have hpending : d.status = .pending := htakes.1
    rw [show d.status = .completed from hcompleted] at hpending
    cases hpending
  | tooSmall | noCurrency => exact not_repairable_of_applied rfl

end DepositJob

namespace DepositState

variable {cfg : DepositConfig} {s s' : DepositState} {p q : CreditorId} {job : DepositJob}
  {rest : List DepositJob} {stage : DepositStage} {d : Deposit} {w : DepositWrite}
  {ds : List Deposit} {start : WalletKey → WalletRow} {act : DepositAction}
  {answer : ChainAnswer}

/-- A process that is about to open a transaction of an indexer does so for a row that is not
blocked. -/
def OpensScreened (cfg : DepositConfig) (s : DepositState) : DepositProcess → Prop
  | ⟨job :: _, .opening⟩ => job.path = .tracker ∨ job.path = .sweep →
      ∀ d ∈ s.deposits[job.depositId]?, ¬ d.Blocked cfg
  | _ => True

instance (process) : Decidable (s.OpensScreened cfg process) := by
  dsimp only [OpensScreened]
  split <;> infer_instance

def Screened (cfg : DepositConfig) (s : DepositState) : DepositAction → Prop
  | .work p _ => s.OpensScreened cfg (s.processes p)
  | _ => True

instance (act) : Decidable (s.Screened cfg act) := by
  cases act <;> dsimp only [Screened] <;> infer_instance

def Clears (cfg : DepositConfig) (s : DepositState) (job : DepositJob) : DepositStage → Prop
  | .locked d => job.path ≠ .confirmed → ¬ d.Blocked cfg
  | .written w => w.balance ≠ none →
      ∀ d, s.deposits[job.depositId]? = some d → ¬ d.Blocked cfg
  | _ => True

theorem clears_of_quiet (h : stage.Quiet) : s.Clears cfg job stage := by
  cases stage with
  | ready | verify | opening => trivial
  | locked | written => exact h.elim

theorem Clears.frame (h : s.Clears cfg job stage) (hholds : s.Holds cfg q job stage)
    (hframe : Untouched s s' q) : s'.Clears cfg job stage := by
  cases stage with
  | ready | verify | opening => trivial
  | locked d => exact h
  | written w =>
    intro hbalance d hd
    obtain ⟨hlock, d', hd', -⟩ := hholds
    obtain rfl := Option.some.inj ((hframe.deposits _ d' hlock hd').symm.trans hd)
    exact h hbalance d' hd'

structure Clean (cfg : DepositConfig) (s : DepositState) : Prop where
  repair : ∀ (id : DepositId) (d : Deposit), s.deposits[id]? = some d → d.Repairable →
    ¬ d.Blocked cfg
  stages : ∀ p job rest stage, s.processes p = ⟨job :: rest, stage⟩ → s.Clears cfg job stage
  credits : ∀ c ∈ s.credits, ∀ d, s.deposits[c.depositId]? = some d → ¬ d.Blocked cfg

theorem Clean.stages_of_process {jobs : List DepositJob} (h : s.Clean cfg) (htracked : s.Tracked
    cfg) (hprocesses : s'.processes = update s.processes p ⟨jobs, stage⟩) (hothers : ∀ q,
    q ≠ p → Untouched s s' q) (hown : ∀ job rest, jobs = job :: rest → s'.Clears cfg job stage) :
    ∀ q job rest stage', s'.processes q = ⟨job :: rest, stage'⟩ → s'.Clears cfg job stage' := by
  intro q job rest stage' hprocess
  rw [hprocesses] at hprocess
  by_cases hq : q = p
  · subst hq
    rw [update_self] at hprocess
    cases hprocess
    exact hown job rest rfl
  · rw [update_of_ne hq] at hprocess
    exact (h.stages q job rest stage' hprocess).frame (htracked.holds q job rest stage' hprocess)
      (hothers q hq)

theorem Updated.before {deposits : List Deposit} (h : Updated s deposits)
    {i : DepositId} {d' : Deposit} (hd' : deposits[i]? = some d') : ∃ d, s.deposits[i]? = some d ∧
    (¬ d.Blocked cfg → ¬ d'.Blocked cfg) ∧ (d'.Repairable → d.Repairable) := by
  cases h with
  | same => exact ⟨d', hd', id, id⟩
  | confirmed confirmations hd =>
    rcases getElem?_set_cases hd' with ⟨rfl, rfl⟩ | ⟨-, hd'⟩
    · exact ⟨_, hd, fun hb => not_blocked_of_flag hb ⟨rfl, rfl, rfl, rfl⟩ rfl, id⟩
    · exact ⟨d', hd', id, id⟩
  | failed hd =>
    rcases getElem?_set_cases hd' with ⟨rfl, rfl⟩ | ⟨-, hd'⟩
    · exact ⟨_, hd, fun hb => not_blocked_of_flag hb ⟨rfl, rfl, rfl, rfl⟩ rfl, nofun⟩
    · exact ⟨d', hd', id, id⟩

theorem Clean.updated {deposits : List Deposit} (h : s.Clean cfg) (hdeposits : Updated s deposits)
    (hrows : s'.deposits = deposits) (hcredits : s'.credits = s.credits)
    (hstages : ∀ p job rest stage, s'.processes p = ⟨job :: rest, stage⟩ →
      s'.Clears cfg job stage) : s'.Clean cfg where
  repair id d' hd' hrepairable := by
    rw [hrows] at hd'
    obtain ⟨d, hd, hblocked, hbefore⟩ := hdeposits.before hd'
    exact hblocked (h.repair id d hd (hbefore hrepairable))
  stages := hstages
  credits c hc d' hd' := by
    rw [hrows] at hd'
    rw [hcredits] at hc
    obtain ⟨d, hd, hblocked, -⟩ := hdeposits.before hd'
    exact hblocked (h.credits c hc d hd)

theorem Clean.not_blocked_of_takes (h : s.Clean cfg) (hact : s.Screened cfg (.work p answer))
    (hp : s.processes p = ⟨job :: rest, .opening⟩) (hd : s.deposits[job.depositId]? = some d)
    (htakes : job.Takes d) (hpath : job.path ≠ .confirmed) : ¬ d.Blocked cfg := by
  simp only [Screened, hp, OpensScreened] at hact
  cases job with
  | creditDepositIfConfirmed => exact absurd rfl hpath
  | applyBalanceForOneCompletedDeposit id =>
    exact h.repair id d hd ⟨htakes.1, htakes.2.1, htakes.2.2.1⟩
  | confirmDeposit listed => exact hact (.inl rfl) d hd
  | creditConfirmedDeposit listed => exact hact (.inr rfl) d hd

theorem Clean.committed (h : s.Clean cfg) (hbooked : s.Booked ds start)
    (hd : s.deposits[job.depositId]? = some d) (htakes : job.Takes d)
    (hrows : s'.deposits = s.deposits.set job.depositId w.row)
    (hrepair : ¬ w.row.Repairable)
    (hcredits : ∀ c ∈ s'.credits, c ∈ s.credits ∨
      c.depositId = job.depositId ∧ ¬ w.row.Blocked cfg)
    (hstages : ∀ p job rest stage, s'.processes p = ⟨job :: rest, stage⟩ →
      s'.Clears cfg job stage) : s'.Clean cfg where
  repair id d' hd' hrepairable := by
    rw [hrows] at hd'
    rcases getElem?_set_cases hd' with ⟨-, rfl⟩ | ⟨-, hd'⟩
    · exact absurd hrepairable hrepair
    · exact h.repair id d' hd' hrepairable
  stages := hstages
  credits c hc d' hd' := by
    rw [hrows] at hd'
    rcases getElem?_set_cases hd' with ⟨hid, rfl⟩ | ⟨hid, hd'⟩
    · rcases hcredits c hc with hc | ⟨-, hblocked⟩
      · -- a row that is credited is applied, and no transaction takes it
        obtain ⟨d'', hd'', happlied, -⟩ := hbooked.own c hc
        rw [hid] at hd''
        obtain rfl := Option.some.inj (hd.symm.trans hd'')
        exact absurd (htakes.unapplied.symm.trans happlied) Bool.false_ne_true
      · exact hblocked
    · rcases hcredits c hc with hc | ⟨hid', -⟩
      · exact h.credits c hc d' hd'
      · exact absurd hid' hid

theorem Clean.change (h : s.Clean cfg) (htracked : s.Tracked cfg) (hbooked : s.Booked ds start)
    (hact : s.Screened cfg act) (hchange : Change cfg s act s') : s'.Clean cfg := by
  cases hchange with
  | moved hdeposits hlocks _ hstage =>
    exact h.updated hdeposits rfl rfl (h.stages_of_process htracked rfl
      (fun q hq => untouched_updated hdeposits rfl hlocks rfl hq)
      (fun _ _ _ => clears_of_quiet hstage))
  | updated hdeposits =>
    refine h.updated hdeposits rfl rfl ?_
    intro q job rest stage hq
    exact (h.stages q job rest stage hq).frame (htracked.holds q job rest stage hq)
      (untouched_updated hdeposits rfl (.inl rfl) rfl (Nat.succ_ne_self q).symm)
  | locked hp hd hfree htakes =>
    refine h.updated .same rfl rfl (h.stages_of_process htracked rfl
      (fun q _ => untouched_enter hfree q) ?_)
    rintro _ _ ⟨⟩ hpath
    exact h.not_blocked_of_takes hact hp hd htakes hpath
  | written hp =>
    refine h.updated .same rfl rfl (h.stages_of_process htracked rfl
      (fun q _ => ⟨fun _ hr => hr, fun _ _ _ hd => hd, fun _ _ => rfl⟩) ?_)
    rintro _ _ ⟨⟩ hbalance
    exact absurd rfl hbalance
  | @credited p _ job _ d hp hfree hsanctions =>
    obtain ⟨-, hd, htakes⟩ := htracked.holds _ _ _ _ hp
    refine h.updated .same rfl rfl (h.stages_of_process htracked rfl
      (fun q _ => untouched_enter hfree q) ?_)
    rintro _ _ ⟨⟩ - d' hd'
    obtain rfl := Option.some.inj (hd.symm.trans hd')
    by_cases hpath : job.path = .confirmed
    · exact htakes.not_blocked hpath (hsanctions hpath)
    · exact h.stages _ _ _ _ hp hpath
  | @committed p _ job rest w hp =>
    have hholds := htracked.holds _ _ _ _ hp
    have hclears := h.stages _ _ _ _ hp
    have hprocesses : ((s.apply job.depositId w).leave p rest).processes =
        update s.processes p ⟨rest, .ready⟩ := processes_commit
    have hstages := h.stages_of_process htracked hprocesses
      (fun q hq => untouched_committed hholds hq) (fun _ _ _ => trivial)
    obtain ⟨-, d, hd, htakes, hwrote⟩ := hholds
    cases hwrote with
    | uncredited hrow =>
      exact h.committed hbooked hd htakes rfl (hrow.not_repairable htakes)
        (fun c hc => .inl hc) hstages
    | credited =>
      refine h.committed hbooked hd htakes rfl
        (not_repairable_of_applied (job.applied_creditedRow d)) ?_ hstages
      intro c hc
      rcases mem_concat hc with hc | rfl
      · exact .inl hc
      · exact .inr ⟨rfl, not_blocked_of_flag (hclears (Option.some_ne_none _) d hd)
          (job.evolves_creditedRow d).toSameData (job.isFlagged_creditedRow d)⟩
  | recorded hstatus =>
    refine ⟨?_, ?_, ?_⟩
    · intro id d' hd' hrepairable
      rcases getElem?_concat_cases hd' with ⟨-, rfl⟩ | ⟨-, hd'⟩
      · cases hstatus.symm.trans hrepairable.1
      · exact h.repair id d' hd' hrepairable
    · intro q job rest stage hq
      exact (h.stages q job rest stage hq).frame (htracked.holds q job rest stage hq)
        (untouched_recorded _ q)
    · intro c hc d' hd'
      obtain ⟨d, hd, -⟩ := hbooked.own c hc
      rw [List.getElem?_append_left (lt_length_of_getElem? hd)] at hd'
      exact h.credits c hc d' hd'
  | pended amount hfree =>
    refine h.updated .same rfl rfl ?_
    intro q job rest stage hq
    exact (h.stages q job rest stage hq).frame (htracked.holds q job rest stage hq)
      (untouched_pended hfree q)

def NoBlockedCredit (cfg : DepositConfig) (s : DepositState) : Prop :=
  ∀ c ∈ s.credits, ∀ d ∈ s.deposits[c.depositId]?, ¬ d.Blocked cfg
  deriving Decidable

def sanctionedConfig : DepositConfig :=
  ⟨fun address _ _ _ => address ≠ "sanctioned", fun _ => true, fun chain => chain = "ethereum"⟩

def fiveCoins (chainId : ChainId) (address : String) (isFlagged : Bool) : Deposit :=
  ⟨7, 1, chainId, "0x1", address, 5, 100, 30, 25, .pending, false, false, isFlagged⟩

/-- The steps of an indexer after its list, from the confirmations to the commit. -/
def trackerSteps (p : CreditorId) : List DepositAction :=
  [.work p (.number 130), .work p .success, .work p .success, .work p .success,
    .work p .success]

def noCoins : WalletKey → WalletRow := fun _ => ⟨0, 0, 0, 0⟩

/-- The tracker credits a deposit; the backend flags another one on a chain without a
provider. -/
def flaggingRun : List DepositAction :=
  [.call 0 .checkPendingDeposits] ++ trackerSteps 0 ++
    [.work 0 (.number 130), .call 1 (.creditDepositIfConfirmed 1), .work 1 .success,
      .work 1 .success, .work 1 .success, .work 1 .success]

def screenedDeposits : List Deposit :=
  [fiveCoins "ethereum" "allowed" false, fiveCoins "solana" "sanctioned" false]

def blockedDeposits : List Deposit :=
  [fiveCoins "ethereum" "sanctioned" false, fiveCoins "bitcoin" "allowed" true]

def indexerRun : List DepositAction :=
  [.call 0 .checkPendingDeposits] ++ trackerSteps 0 ++
    [.call 1 (.creditReadyDepositsForChain "bitcoin"), .work 1 (.number 30), .work 1 .success,
      .work 1 .success, .work 1 .success]

end DepositState

end MetherCEX
