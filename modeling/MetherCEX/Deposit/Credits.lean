import MetherCEX.Deposit.Changes

/-!
# Each deposit is credited once

Every transaction that credits a deposit has locked its row and found `balance_applied_at` to be
null, and its commit sets it.
-/

namespace MetherCEX

open Run Table Tally Wallet List Option Function DepositCredit

structure Deposit.Evolves (d d' : Deposit) : Prop extends d.SameData d' where
  applied : d.applied = true → d'.applied = true
  isFlagged : d.isFlagged = true → d'.isFlagged = true

namespace Deposit

variable {d d' d'' : Deposit}

theorem Evolves.refl (d : Deposit) : d.Evolves d := ⟨.refl d, id, id⟩

theorem Evolves.trans (h : d.Evolves d') (h' : d'.Evolves d'') : d.Evolves d'' :=
  ⟨h.toSameData.trans h'.toSameData, h'.applied ∘ h.applied, h'.isFlagged ∘ h.isFlagged⟩

theorem SameData.ownerKey (h : d.SameData d') : d'.ownerKey = d.ownerKey := by
  simp only [Deposit.ownerKey, h.userId, h.currencyId]

theorem evolves_completed (d : Deposit) : d.Evolves d.completed :=
  ⟨⟨rfl, rfl, rfl, rfl⟩, fun _ => rfl, id⟩

theorem evolves_applied (d : Deposit) : d.Evolves { d with applied := true } :=
  ⟨⟨rfl, rfl, rfl, rfl⟩, fun _ => rfl, id⟩

/-- Each row of the first table is in the second one, perhaps in a later version. -/
def Evolved (ds ds' : List Deposit) : Prop :=
  ∀ (id : DepositId) (d : Deposit), ds[id]? = some d → ∃ d', ds'[id]? = some d' ∧ d.Evolves d'

variable {ds ds' ds'' : List Deposit} {id : DepositId}

theorem Evolved.refl (ds : List Deposit) : Evolved ds ds := fun _ d hd => ⟨d, hd, .refl d⟩

theorem Evolved.trans (h : Evolved ds ds') (h' : Evolved ds' ds'') : Evolved ds ds'' := by
  intro id d hd
  obtain ⟨d', hd', hevolves⟩ := h id d hd
  obtain ⟨d'', hd'', hevolves'⟩ := h' id d' hd'
  exact ⟨d'', hd'', hevolves.trans hevolves'⟩

theorem Evolved.set (hd : ds[id]? = some d) (h : d.Evolves d') : Evolved ds (ds.set id d') := by
  intro id' e he
  by_cases hid : id' = id
  · subst hid
    obtain rfl := some.inj (hd.symm.trans he)
    exact ⟨d', getElem?_set_of_getElem? hd, h⟩
  · exact ⟨e, (getElem?_set_ne (Ne.symm hid)).trans he, .refl e⟩

theorem Evolved.concat (ds : List Deposit) (d : Deposit) : Evolved ds (ds ++ [d]) := by
  intro id e he
  exact ⟨e, (getElem?_append_left (lt_length_of_getElem? he)).trans he, .refl e⟩

end Deposit

open Deposit

namespace DepositJob

variable {job : DepositJob} {d row : Deposit}

theorem Takes.unapplied (h : job.Takes d) : d.applied = false := by
  cases job with
  | creditDepositIfConfirmed | applyBalanceForOneCompletedDeposit => exact h.2.2.1
  | confirmDeposit | creditConfirmedDeposit => exact h

theorem NoCredit.evolves {cfg : DepositConfig} (h : job.NoCredit cfg d row) : d.Evolves row := by
  cases h with
  | flagged => exact ⟨⟨rfl, rfl, rfl, rfl⟩, id, fun _ => rfl⟩
  | tooSmall => exact evolves_applied d
  | noCurrency => exact evolves_completed d

theorem evolves_creditedRow (job : DepositJob) (d : Deposit) : d.Evolves (job.creditedRow d) := by
  cases job with
  | applyBalanceForOneCompletedDeposit => exact evolves_applied d
  | creditDepositIfConfirmed | confirmDeposit | creditConfirmedDeposit =>
    exact evolves_completed d

theorem applied_creditedRow (job : DepositJob) (d : Deposit) :
    (job.creditedRow d).applied = true := by
  cases job <;> rfl

end DepositJob

namespace DepositCredit

def line (c : DepositCredit) : WalletReference × WalletKey × WalletBucket × ℚ :=
  (.deposit c.depositId, c.key, .available, c.amount)

def IsOf (c : DepositCredit) (d : Deposit) : Prop :=
  c.key = d.ownerKey ∧ c.amount = c.path.amount d.amount

theorem IsOf.mono {c : DepositCredit} {d d' : Deposit} (h : c.IsOf d) (hdata : d.SameData d') :
    c.IsOf d' := by
  refine ⟨h.1.trans hdata.ownerKey.symm, h.2.trans ?_⟩
  rw [hdata.amount]

end DepositCredit

namespace DepositState

variable {cfg : DepositConfig} {s s' : DepositState} {p q : CreditorId} {job : DepositJob}
  {rest : List DepositJob} {stage : DepositStage} {d : Deposit} {w : DepositWrite}
  {ds : List Deposit} {start : WalletKey → WalletRow} {act : DepositAction}

variable {deposits : List Deposit} {resource : DepositResource} {jobs : List DepositJob}

theorem Updated.evolved (h : Updated s deposits) : Evolved s.deposits deposits := by
  cases h with
  | same => exact .refl _
  | confirmed confirmations hd | failed hd => exact .set hd ⟨⟨rfl, rfl, rfl, rfl⟩, id, id⟩

theorem Known.mono (h : s.Known job) (hrows : Evolved s.deposits s'.deposits) : s'.Known job := by
  cases job with
  | creditDepositIfConfirmed | applyBalanceForOneCompletedDeposit => trivial
  | confirmDeposit listed | creditConfirmedDeposit listed =>
    obtain ⟨d, hd, hdata⟩ := h
    obtain ⟨d', hd', hevolves⟩ := hrows _ d hd
    exact ⟨d', hd', hdata.userId.trans hevolves.userId.symm,
      hdata.currencyId.trans hevolves.currencyId.symm,
      hdata.toAddress.trans hevolves.toAddress.symm, hdata.amount.trans hevolves.amount.symm⟩

theorem Known.sameData_source (h : s.Known job) (hd : s.deposits[job.depositId]? = some d) :
    d.SameData (job.source d) := by
  cases job with
  | creditDepositIfConfirmed | applyBalanceForOneCompletedDeposit => exact .refl d
  | confirmDeposit listed | creditConfirmedDeposit listed =>
    obtain ⟨d', hd', hdata⟩ := h
    obtain rfl := some.inj (hd.symm.trans hd')
    exact hdata

/-- What the transaction of `p` has written, given the row `d`. -/
inductive Wrote (cfg : DepositConfig) (s : DepositState) (p : CreditorId) (job : DepositJob)
    (d : Deposit) : DepositWrite → Prop
  | uncredited {row : Deposit} (hrow : job.NoCredit cfg d row) : Wrote cfg s p job d ⟨row, none⟩
  | credited (hlock : s.locks (.balance (job.source d).ownerKey) = some p)
      (hsanctions : job.path = .confirmed → cfg.allows d = true) :
      Wrote cfg s p job d (job.creditWrite d (s.wallet.balances (job.source d).ownerKey))

/-- A process in a transaction holds the lock of the row, which is as it was read. -/
def Holds (cfg : DepositConfig) (s : DepositState) (p : CreditorId) (job : DepositJob) :
    DepositStage → Prop
  | .locked d => s.locks (.deposit job.depositId) = some p ∧
      s.deposits[job.depositId]? = some d ∧ job.Takes d
  | .written w => s.locks (.deposit job.depositId) = some p ∧
      ∃ d, s.deposits[job.depositId]? = some d ∧ job.Takes d ∧ Wrote cfg s p job d w
  | _ => True

theorem holds_of_quiet (h : stage.Quiet) : s.Holds cfg p job stage := by
  cases stage with
  | ready | verify | opening => trivial
  | locked | written => exact h.elim

/-- Nothing that `p` has locked is touched. -/
structure Untouched (s s' : DepositState) (p : CreditorId) : Prop where
  locks : ∀ r, s.locks r = some p → s'.locks r = some p
  deposits : ∀ (id : DepositId) (d : Deposit), s.locks (.deposit id) = some p →
    s.deposits[id]? = some d → s'.deposits[id]? = some d
  balances : ∀ key, s.locks (.balance key) = some p →
    s'.wallet.balances key = s.wallet.balances key

theorem Holds.frame (h : s.Holds cfg p job stage) (hframe : Untouched s s' p) :
    s'.Holds cfg p job stage := by
  cases stage with
  | ready | verify | opening => trivial
  | locked d =>
    obtain ⟨hlock, hd, htakes⟩ := h
    exact ⟨hframe.locks _ hlock, hframe.deposits _ d hlock hd, htakes⟩
  | written w =>
    obtain ⟨hlock, d, hd, htakes, hwrote⟩ := h
    refine ⟨hframe.locks _ hlock, d, hframe.deposits _ d hlock hd, htakes, ?_⟩
    cases hwrote with
    | uncredited hrow => exact .uncredited hrow
    | credited hbalance hsanctions =>
      rw [← hframe.balances _ hbalance]
      exact .credited (hframe.locks _ hbalance) hsanctions

theorem Updated.getElem?_of_locked (h : Updated s deposits) {id : DepositId}
    (hlock : s.locks (.deposit id) = some p) : deposits[id]? = s.deposits[id]? := by
  have hne : ∀ id', s.locks (.deposit id') = none → id' ≠ id := by
    rintro id' hfree rfl
    exact some_ne_none p (hlock.symm.trans hfree)
  cases h with
  | same => rfl
  | confirmed _ _ hfree | failed _ hfree => exact getElem?_set_ne (hne _ hfree)

theorem untouched_enter (hfree : s.locks resource = none) (q : CreditorId) :
    Untouched s (s.enter p job rest resource stage) q where
  locks r hr := by
    refine LockTable.take_eq_some ?_ hr
    intro k hk
    obtain rfl := mem_singleton.mp hk
    exact .inl hfree
  deposits _ _ _ hd := hd
  balances _ _ := rfl

theorem take_self (t : LockTable DepositResource CreditorId) :
    t.take p [resource] resource = some p :=
  LockTable.take_of_mem (mem_singleton_self resource)

theorem untouched_committed (h : s.Holds cfg p job (.written w)) (hq : q ≠ p) :
    Untouched s ((s.apply job.depositId w).leave p rest) q := by
  obtain ⟨hlock, d, hd, -, hwrote⟩ := h
  have hrow : ∀ (id : DepositId) (e : Deposit), s.locks (.deposit id) = some q →
      s.deposits[id]? = some e → (s.deposits.set job.depositId w.row)[id]? = some e := by
    intro id e hid he
    refine (getElem?_set_ne ?_).trans he
    rintro rfl
    exact hq (some.inj (hid.symm.trans hlock))
  cases hwrote with
  | uncredited => exact ⟨fun r hr => LockTable.release_eq_some hr hq, hrow, fun _ _ => rfl⟩
  | credited hbalance =>
    refine ⟨fun r hr => LockTable.release_eq_some hr hq, hrow, ?_⟩
    intro key hkey
    refine update_of_ne ?_ _ _
    rintro rfl
    exact hq (some.inj (hkey.symm.trans hbalance))

theorem untouched_updated (hdeposits : Updated s deposits) (hrows : s'.deposits = deposits)
    (hlocks : s'.locks = s.locks ∨ s'.locks = s.locks.release p) (hwallet : s'.wallet = s.wallet)
    (hq : q ≠ p) : Untouched s s' q where
  locks r hr := by
    rcases hlocks with hlocks | hlocks
    · rw [hlocks, hr]
    · rw [hlocks]
      exact LockTable.release_eq_some hr hq
  deposits id d hid hd := by
    rw [hrows]
    exact (hdeposits.getElem?_of_locked hid).trans hd
  balances key _ := by rw [hwallet]

theorem untouched_recorded (d : Deposit) (q : CreditorId) :
    Untouched s { s with deposits := s.deposits ++ [d] } q where
  locks _ hr := hr
  deposits _ _ _ hd := (getElem?_append_left (lt_length_of_getElem? hd)).trans hd
  balances _ _ := rfl

theorem untouched_pended {key : WalletKey} {row : WalletRow} {entries : List WalletEntry}
    (hfree : s.locks (.balance key) = none) (q : CreditorId) :
    Untouched s { s with wallet := s.wallet.write key row entries } q where
  locks _ hr := hr
  deposits _ _ _ hd := hd
  balances key' hkey' := by
    refine update_of_ne ?_ _ _
    rintro rfl
    exact some_ne_none q (hkey'.symm.trans hfree)

structure Tracked (cfg : DepositConfig) (s : DepositState) : Prop where
  jobs : ∀ p, ∀ job ∈ (s.processes p).jobs, s.Known job
  holds : ∀ p job rest stage, s.processes p = ⟨job :: rest, stage⟩ → s.Holds cfg p job stage

theorem Tracked.of_process (h : s.Tracked cfg)
    (hprocesses : s'.processes = update s.processes p ⟨jobs, stage⟩)
    (hrows : Evolved s.deposits s'.deposits)
    (hjobs : ∀ job ∈ jobs, job ∈ (s.processes p).jobs ∨ s.Known job)
    (hothers : ∀ q, q ≠ p → Untouched s s' q)
    (hown : ∀ job rest, jobs = job :: rest → s'.Holds cfg p job stage) : s'.Tracked cfg where
  jobs q job hjob := by
    refine Known.mono ?_ hrows
    rw [hprocesses] at hjob
    by_cases hq : q = p
    · subst hq
      rw [update_self] at hjob
      exact (hjobs job hjob).elim (h.jobs q job) id
    · rw [update_of_ne hq] at hjob
      exact h.jobs q job hjob
  holds q job rest stage' hprocess := by
    rw [hprocesses] at hprocess
    by_cases hq : q = p
    · subst hq
      rw [update_self] at hprocess
      cases hprocess
      exact hown job rest rfl
    · rw [update_of_ne hq] at hprocess
      exact (h.holds q job rest stage' hprocess).frame (hothers q hq)

theorem Tracked.of_tables (h : s.Tracked cfg) (hprocesses : s'.processes = s.processes)
    (hrows : Evolved s.deposits s'.deposits) (hframe : ∀ q, Untouched s s' q) :
    s'.Tracked cfg where
  jobs q job hjob := by
    rw [hprocesses] at hjob
    exact (h.jobs q job hjob).mono hrows
  holds q job rest stage hprocess := by
    rw [hprocesses] at hprocess
    exact (h.holds q job rest stage hprocess).frame (hframe q)

theorem evolved_apply (h : s.Holds cfg p job (.written w)) :
    Evolved s.deposits (s.apply job.depositId w).deposits := by
  obtain ⟨-, d, hd, -, hwrote⟩ := h
  cases hwrote with
  | uncredited hrow => exact .set hd hrow.evolves
  | credited => exact .set hd (job.evolves_creditedRow d)

theorem processes_commit : ((s.apply job.depositId w).leave p rest).processes =
    update s.processes p ⟨rest, .ready⟩ := by
  cases hbalance : w.balance <;> simp only [apply, hbalance, leave, setProcess, setRow]

theorem known_of_process (hp : s.processes p = ⟨jobs, stage⟩) :
    ∀ job ∈ jobs, job ∈ (s.processes p).jobs ∨ s.Known job := by
  intro job hjob
  rw [hp]
  exact .inl hjob

theorem Tracked.change (h : s.Tracked cfg) (hchange : Change cfg s act s') : s'.Tracked cfg := by
  cases hchange with
  | moved hdeposits hlocks hjobs hstage =>
    exact h.of_process rfl hdeposits.evolved hjobs
      (fun q hq => untouched_updated hdeposits rfl hlocks rfl hq)
      (fun _ _ _ => holds_of_quiet hstage)
  | updated hdeposits =>
    exact h.of_tables rfl hdeposits.evolved fun q =>
      untouched_updated hdeposits rfl (.inl rfl) rfl (Nat.succ_ne_self q).symm
  | locked hp hd hfree htakes =>
    refine h.of_process rfl (.refl _) (known_of_process hp)
      (fun q _ => untouched_enter hfree q) ?_
    rintro _ _ ⟨⟩
    exact ⟨take_self s.locks, hd, htakes⟩
  | written hp hrow =>
    obtain ⟨hlock, hd, htakes⟩ := h.holds _ _ _ _ hp
    refine h.of_process rfl (.refl _) (known_of_process hp)
      (fun q _ => ⟨fun _ hr => hr, fun _ _ _ hd => hd, fun _ _ => rfl⟩) ?_
    rintro _ _ ⟨⟩
    exact ⟨hlock, _, hd, htakes, .uncredited hrow⟩
  | @credited p _ job _ d hp hfree hsanctions =>
    obtain ⟨hlock, hd, htakes⟩ := h.holds _ _ _ _ hp
    refine h.of_process rfl (.refl _) (known_of_process hp)
      (fun q _ => untouched_enter hfree q) ?_
    rintro _ _ ⟨⟩
    exact ⟨(untouched_enter hfree p).locks _ hlock, d, hd, htakes,
      .credited (take_self s.locks) hsanctions⟩
  | committed hp =>
    have hholds := h.holds _ _ _ _ hp
    refine h.of_process processes_commit (evolved_apply hholds) ?_
      (fun q hq => untouched_committed hholds hq) (fun _ _ _ => trivial)
    intro job' hjob'
    rw [hp]
    exact .inl (mem_cons_of_mem _ hjob')
  | recorded =>
    exact h.of_tables rfl (.concat _ _) (untouched_recorded _)
  | pended amount hfree => exact h.of_tables rfl (.refl _) (untouched_pended hfree)

structure Booked (ds : List Deposit) (start : WalletKey → WalletRow) (s : DepositState) :
    Prop where
  rows : Evolved ds s.deposits
  once : (s.credits.map depositId).Nodup
  own : ∀ c ∈ s.credits, ∃ d, s.deposits[c.depositId]? = some d ∧ d.applied = true ∧ c.IsOf d
  unapplied : ∀ c ∈ s.credits, ∀ d, ds[c.depositId]? = some d → d.applied = false
  ledger : s.wallet.ledger.map (fun e => (e.reference, e.move)) =
    s.credits.map line
  accounts : Accounted start s.wallet

theorem Booked.of_rows (h : s.Booked ds start) (hrows : Evolved s.deposits s'.deposits)
    (hcredits : s'.credits = s.credits) (hwallet : s'.wallet = s.wallet) :
    s'.Booked ds start where
  rows := h.rows.trans hrows
  once := by rw [hcredits]; exact h.once
  own c hc := by
    rw [hcredits] at hc
    obtain ⟨d, hd, happlied, hof⟩ := h.own c hc
    obtain ⟨d', hd', hevolves⟩ := hrows _ d hd
    exact ⟨d', hd', hevolves.applied happlied, hof.mono hevolves.toSameData⟩
  unapplied c hc := by
    rw [hcredits] at hc
    exact h.unapplied c hc
  ledger := by rw [hcredits, hwallet]; exact h.ledger
  accounts := by rw [hwallet]; exact h.accounts

theorem Booked.credited (h : s.Booked ds start) (hd : s.deposits[job.depositId]? = some d) (htakes :
    job.Takes d) (hdata : d.SameData (job.source d)) : ((s.apply job.depositId (job.creditWrite
    d (s.wallet.balances (job.source d).ownerKey))).leave p rest).Booked ds start := by
  have hrows : Evolved s.deposits (s.deposits.set job.depositId (job.creditedRow d)) :=
    .set hd (job.evolves_creditedRow d)
  have hnew : ∀ c ∈ s.credits, c.depositId ≠ job.depositId := by
    intro c hc hid
    obtain ⟨d', hd', happlied, -⟩ := h.own c hc
    rw [hid] at hd'
    obtain rfl := some.inj (hd.symm.trans hd')
    exact Bool.false_ne_true (htakes.unapplied.symm.trans happlied)
  refine ⟨h.rows.trans hrows, ?_, ?_, ?_, ?_, ?_⟩
  · change ((s.credits ++ [_]).map depositId).Nodup
    rw [map_append, nodup_append]
    refine ⟨h.once, nodup_singleton _, ?_⟩
    intro id hid id' hid' heq
    obtain ⟨c, hc, rfl⟩ := mem_map.mp hid
    obtain rfl := mem_singleton.mp hid'
    exact hnew c hc heq
  · intro c hc
    rcases mem_concat hc with hc | rfl
    · obtain ⟨d', hd', happlied, hof⟩ := h.own c hc
      exact ⟨d', (getElem?_set_ne (hnew c hc).symm).trans hd', happlied, hof⟩
    · have hevolves := (job.evolves_creditedRow d).toSameData
      refine ⟨_, getElem?_set_of_getElem? hd, job.applied_creditedRow d, ?_, ?_⟩
      · exact hdata.ownerKey.trans hevolves.ownerKey.symm
      · change job.path.amount (job.source d).amount = job.path.amount (job.creditedRow d).amount
        rw [hdata.amount, hevolves.amount]
  · intro c hc d₀ hd₀
    rcases mem_concat hc with hc | rfl
    · exact h.unapplied c hc d₀ hd₀
    · obtain ⟨d', hd', hevolves⟩ := h.rows _ d₀ hd₀
      obtain rfl := some.inj (hd.symm.trans hd')
      by_contra happlied
      rw [Bool.not_eq_false] at happlied
      exact Bool.false_ne_true (htakes.unapplied.symm.trans (hevolves.applied happlied))
  · change (s.wallet.ledger ++ [_]).map _ = (s.credits ++ [_]).map _
    rw [map_append, map_append, h.ledger]
    congr 1
    simp [CreditPath.entry, line, WalletEntry.move, WalletEntry.change]
  · refine h.accounts.write (by simp [CreditPath.entry]) ?_
    rintro ⟨⟩ <;>
      simp [WalletRow.bucket, CreditPath.creditRow, moved, tally, CreditPath.entry,
        WalletEntry.change]

theorem Booked.change (h : s.Booked ds start) (htracked : s.Tracked cfg)
    (hchange : Change cfg s act s') : s'.Booked ds start := by
  cases hchange with
  | moved hdeposits | updated hdeposits => exact h.of_rows hdeposits.evolved rfl rfl
  | locked | written | credited => exact h.of_rows (.refl _) rfl rfl
  | recorded => exact h.of_rows (.concat _ _) rfl rfl
  | @committed p _ job rest w hp =>
    have hholds := htracked.holds _ _ _ _ hp
    have hrows := evolved_apply hholds
    obtain ⟨-, d, hd, htakes, hwrote⟩ := hholds
    cases hwrote with
    | uncredited hrow => exact h.of_rows hrows rfl rfl
    | credited hlock =>
      have hknown : s.Known job := htracked.jobs p job (by rw [hp]; exact mem_cons_self)
      exact h.credited hd htakes (hknown.sameData_source hd)
  | pended amount =>
    refine ⟨h.rows, h.once, h.own, h.unapplied, ?_, ?_⟩
    · rw [← h.ledger]
      exact congrArg _ (append_nil _)
    · refine h.accounts.write (fun e he => nomatch he) ?_
      rintro ⟨⟩ <;> simp [WalletRow.bucket, moved]

theorem tracked_booked_run (acts : List DepositAction) :
    (run cfg ds start acts).Tracked cfg ∧ (run cfg ds start acts).Booked ds start := by
  refine Along.invariant (P := fun s => s.Tracked cfg ∧ s.Booked ds start)
    (along_of_forall (C := fun _ _ => True) (fun _ _ => trivial) (init ds start) acts) ?_ ?_
  · refine ⟨⟨?_, ?_⟩, ?_⟩
    · exact fun _ _ hjob => absurd hjob not_mem_nil
    · exact fun _ _ _ _ hp => by simp [init] at hp
    · exact ⟨.refl ds, nodup_nil, forall_mem_nil _, forall_mem_nil _, rfl,
        accounted_init⟩
  · rintro s act ⟨htracked, hbooked⟩ -
    exact ⟨htracked.change (change_of_step act), hbooked.change htracked (change_of_step act)⟩

theorem Booked.available (h : s.Booked ds start) (key : WalletKey) :
    (s.wallet.balances key).available = (start key).available +
      tally DepositCredit.key DepositCredit.amount s.credits key := by
  have hledger : moved s.wallet.ledger key .available =
      tally DepositCredit.key DepositCredit.amount s.credits key := by
    calc moved s.wallet.ledger key .available
        = tally (fun l : WalletReference × WalletKey × WalletBucket × ℚ => (l.2.1, l.2.2.1))
            (fun l => l.2.2.2) (s.wallet.ledger.map fun e => (e.reference, e.move))
            (key, .available) := by
          rw [tally_map]
          rfl
      _ = tally (fun c : DepositCredit => (c.key, WalletBucket.available)) amount
            s.credits (key, .available) := by
          rw [h.ledger, tally_map]
          rfl
      _ = tally DepositCredit.key DepositCredit.amount s.credits key := by
          simp only [tally, Prod.mk.injEq, and_true]
  rw [← hledger]
  exact h.accounts key .available

/-- The credits of a run that started with the deposits `ds` and the balances `start`: each
deposit is credited once at most, and not if it was applied at the start; a credit goes to the
owner and is of the amount of the deposit, which is what it was at the start; the ledger has one
line for each credit; and the available balances have changed by the credits. -/
structure CreditedOnce (ds : List Deposit) (start : WalletKey → WalletRow) (s : DepositState) :
    Prop where
  once : (s.credits.map depositId).Nodup
  own : ∀ c ∈ s.credits, ∃ d, s.deposits[c.depositId]? = some d ∧ c.IsOf d
  unapplied : ∀ c ∈ s.credits, ∀ d, ds[c.depositId]? = some d → d.applied = false
  same : ∀ (id : DepositId) (d : Deposit), ds[id]? = some d →
    ∃ d', s.deposits[id]? = some d' ∧ d.SameData d'
  ledger : s.wallet.ledger.map (fun e => (e.reference, e.move)) =
    s.credits.map line
  available : ∀ key, (s.wallet.balances key).available = (start key).available +
    tally DepositCredit.key DepositCredit.amount s.credits key

/-- In every run each deposit is credited once at most, with its own amount. -/
theorem deposits_credited_once (cfg : DepositConfig) (ds : List Deposit)
    (start : WalletKey → WalletRow) (acts : List DepositAction) :
    CreditedOnce ds start (run cfg ds start acts) := by
  have h : (run cfg ds start acts).Booked ds start := (tracked_booked_run acts).2
  refine ⟨h.once, ?_, h.unapplied, ?_, h.ledger, h.available⟩
  · intro c hc
    obtain ⟨d, hd, -, hof⟩ := h.own c hc
    exact ⟨d, hd, hof⟩
  · intro id d hd
    obtain ⟨d', hd', hevolves⟩ := h.rows id d hd
    exact ⟨d', hd', hevolves.toSameData⟩

end DepositState

end MetherCEX
