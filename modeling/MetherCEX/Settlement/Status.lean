import MetherCEX.Settlement.AtMostOnce

/-!
# The status of a row and its effect

A commit writes the ledger entries of a row and its status together, so a row is `processed`
exactly when it has entries. The only statement that writes another status is the failure update
of a worker.
-/

namespace MetherCEX

open Run

namespace SettlementState

variable {s s' : SettlementState}

/-- A row is processed if and only if it has ledger entries. -/
def StatusAgrees (s : SettlementState) : Prop :=
  ∀ r ∈ s.rows, r.status = .processed ↔ entriesOf s.ledger r.id ≠ []

def FailsUnprocessed (s : SettlementState) : SettlementAction → Prop
  | .recordFailure p =>
    match s.processes p with
    | some (.failing id true) | some (.exhausted id) =>
      ∀ r ∈ s.rows, r.id = id → r.status ≠ .processed
    | _ => True
  | _ => True

instance (s : SettlementState) (a : SettlementAction) : Decidable (FailsUnprocessed s a) := by
  unfold FailsUnprocessed
  split
  · split <;> infer_instance
  · infer_instance

theorem FailsUnprocessed.row {p : ProcessId} {id : ℕ} (h : FailsUnprocessed s (.recordFailure p))
    (hp : s.processes p = some (.failing id true) ∨ s.processes p = some (.exhausted id)) :
    ∀ r ∈ s.rows, r.id = id → r.status ≠ .processed := by
  rcases hp with hp | hp
  · simpa [FailsUnprocessed, hp] using h
  · simpa [FailsUnprocessed, hp] using h

theorem status_of_setStatus {rows : List SettlementRow} {id : ℕ} {status : SettlementStatus}
    {r : SettlementRow} (h : r ∈ updateRow rows id (SettlementRow.setStatus status)) :
    ∃ r₀ ∈ rows, r.id = r₀.id ∧ r.status = if r₀.id = id then status else r₀.status := by
  obtain ⟨r₀, hr₀, hid, -, rfl⟩ :=
    exists_of_mem_updateRow (SettlementRow.keepsRow_setStatus status) h
  refine ⟨r₀, hr₀, hid, ?_⟩
  by_cases h' : r₀.id = id
  · simp [h', SettlementRow.setStatus]
  · simp [h']

theorem status_of_countRetry {rows : List SettlementRow} {id : ℕ} {r : SettlementRow}
    (h : r ∈ updateRow rows id SettlementRow.countRetry) :
    ∃ r₀ ∈ rows, r.id = r₀.id ∧ r.status = r₀.status := by
  obtain ⟨r₀, hr₀, hid, -, rfl⟩ :=
    exists_of_mem_updateRow SettlementRow.keepsRow_countRetry h
  refine ⟨r₀, hr₀, hid, ?_⟩
  by_cases h' : r₀.id = id
  · simp [h', SettlementRow.countRetry]
  · simp [h']

theorem StatusAgrees.of_sameTables (h : StatusAgrees s) (hs : SameTables s s') :
    StatusAgrees s' := by
  rw [StatusAgrees, hs.rows, hs.ledger]
  exact h

theorem StatusAgrees.write {D : MarketAssets → Prop} (h : StatusAgrees s) {p : ProcessId}
    {tx : Transaction} {eff : SettlementEffect} (htx : TxOk D s p tx)
    (heff : tx.effect = some eff) : StatusAgrees (s.write tx eff) := by
  have hown : entriesOf (s.ledger ++ eff.entries) tx.row.id ≠ [] := by
    cases htx.effect eff heff with
    | replay entries effect => simpa [effect] using entries
    | settled t payload entries users market locks effect =>
      simp [effect, entries, SettlementTerms.entriesOf_entries, SettlementTerms.entries_ne_nil]
  have hother : ∀ id, id ≠ tx.row.id →
      entriesOf (s.ledger ++ eff.entries) id = entriesOf s.ledger id := by
    intro id hid
    cases htx.effect eff heff with
    | replay entries effect => simp [effect]
    | settled t payload entries users market locks effect =>
      simp [effect, SettlementTerms.entriesOf_entries_of_ne hid]
  intro r hr
  obtain ⟨r₀, hr₀, hid, hstatus⟩ := status_of_setStatus hr
  simp only [SettlementState.write, hid, hstatus]
  by_cases hrow : r₀.id = tx.row.id
  · rw [if_pos hrow, hrow]
    exact iff_of_true rfl hown
  · rw [if_neg hrow, hother r₀.id hrow]
    -- a row other than that of the transaction was in the table before
    apply h r₀
    cases hins : tx.inserted with
    | false => simpa [hins] using hr₀
    | true =>
      simp only [hins, if_true, List.mem_append, List.mem_singleton] at hr₀
      rcases hr₀ with hr₀ | rfl
      · exact hr₀
      · exact absurd rfl hrow

theorem StatusAgrees.step {D : MarketAssets → Prop} (h : StatusAgrees s) (hs : Consistent D s)
    {a : SettlementAction} (ha : FailsUnprocessed s a) : StatusAgrees (s.step a) := by
  cases tableStep s a with
  | quiet tables => exact h.of_sameTables tables
  | persisted r id status tables =>
    apply StatusAgrees.of_sameTables _ tables
    intro r' hr'
    rcases List.mem_append.mp hr' with hr' | hr'
    · exact h r' hr'
    · rw [List.mem_singleton.mp hr', status, id]
      -- the id of the new row is new, so it has no entries
      have hnone := hs.tables.entriesOf_eq_nil fun r hr => (hs.tables.id_lt r hr).ne
      simp [hnone]
  | committed p tx eff progress effect tables =>
    exact (h.write (hs.txs p tx progress) effect).of_sameTables tables
  | retried id tables =>
    apply StatusAgrees.of_sameTables _ tables
    intro r hr
    obtain ⟨r₀, hr₀, hid, hstatus⟩ := status_of_countRetry hr
    rw [hid, hstatus]
    exact h r₀ hr₀
  | failed p id action progress tables =>
    subst action
    apply StatusAgrees.of_sameTables _ tables
    intro r hr
    obtain ⟨r₀, hr₀, hid, hstatus⟩ := status_of_setStatus hr
    rw [hid, hstatus]
    by_cases hrow : r₀.id = id
    · have hne := ha.row progress r₀ hr₀ hrow
      rw [if_pos hrow]
      exact iff_of_false (by simp) fun hentries => hne ((h r₀ hr₀).mpr hentries)
    · rw [if_neg hrow]
      exact h r₀ hr₀
  | changed u c dAvailable dLocked tables =>
    apply StatusAgrees.of_sameTables _ tables
    unfold otherChange
    split
    · exact h
    · exact h

theorem ledger_step (s : SettlementState) (a : SettlementAction) :
    s.ledger ⊆ (s.step a).ledger := by
  have hrefl : s.ledger ⊆ s.ledger := List.Subset.refl _
  cases tableStep s a with
  | quiet tables => rwa [tables.ledger]
  | persisted r id status tables => rw [tables.ledger]; exact hrefl
  | committed p tx eff progress effect tables =>
    rw [tables.ledger]
    exact List.subset_append_left s.ledger eff.entries
  | retried id tables | failed p id action progress tables => rw [tables.ledger]; exact hrefl
  | changed u c dAvailable dLocked tables =>
    rw [tables.ledger, otherChange]
    split <;> exact hrefl

theorem ledger_foldl (s : SettlementState) (acts : List SettlementAction) :
    s.ledger ⊆ (acts.foldl step s).ledger := by
  induction acts generalizing s with
  | nil => exact List.Subset.refl _
  | cons a acts ih => exact List.Subset.trans (ledger_step s a) (ih (s.step a))

theorem entriesOf_ne_nil_of_subset {ledger ledger' : List LedgerEntry} {id : ℕ}
    (hsub : ledger ⊆ ledger') (h : entriesOf ledger id ≠ []) : entriesOf ledger' id ≠ [] := by
  rw [ne_eq, entriesOf_eq_nil_iff, not_not] at h ⊢
  obtain ⟨e, he, hid⟩ := h
  exact ⟨e, hsub he, hid⟩

theorem consistent_and_statusAgrees {bal : Balances} {acts : List SettlementAction}
    (h : Along step FailsUnprocessed (init bal) acts) :
    Consistent (fun _ => True) (run bal acts) ∧ StatusAgrees (run bal acts) := by
  apply h.invariant (P := fun s => Consistent (fun _ => True) s ∧ StatusAgrees s)
  · refine ⟨consistent_init _ bal, fun r hr => ?_⟩
    cases hr
  · intro s a hs ha
    exact ⟨hs.1.step fun m _ => trivial, hs.2.step hs.1 ha⟩

/-- A row is processed if and only if it has ledger entries, a failed row was never
applied, and a processed row is processed for good: `more` is whatever happens after. -/
theorem processed_iff_entries {bal : Balances} {acts more : List SettlementAction}
    (h : Along step FailsUnprocessed (init bal) (acts ++ more)) :
    (∀ r ∈ (run bal acts).rows, r.status = .processed ↔ entriesOf (run bal acts).ledger r.id ≠ []) ∧
    (∀ r ∈ (run bal acts).rows, r.status = .failed → r.id ∉ (run bal acts).applied) ∧ ∀ r ∈
    (run bal acts).rows, r.status = .processed → (∃ r' ∈ (run bal (acts ++ more)).rows, r'.id =
    r.id) ∧ ∀ r' ∈ (run bal (acts ++ more)).rows, r'.id = r.id → r'.status = .processed := by
  obtain ⟨hs, hagree⟩ := consistent_and_statusAgrees (along_append.mp h).1
  obtain ⟨hs', hagree'⟩ := consistent_and_statusAgrees h
  refine ⟨hagree, fun r hr hfailed happlied => ?_, fun r hr hprocessed => ?_⟩
  · have hentries := (hs.tables.applied_iff r.id).mp happlied
    rw [(hagree r hr).mpr hentries] at hfailed
    cases hfailed
  · have hsub : (run bal acts).ledger ⊆ (run bal (acts ++ more)).ledger := by
      rw [run, run, List.foldl_append]
      exact ledger_foldl _ more
    have hentries := entriesOf_ne_nil_of_subset hsub ((hagree r hr).mp hprocessed)
    constructor
    · rw [ne_eq, entriesOf_eq_nil_iff, not_not] at hentries
      obtain ⟨e, he, hid⟩ := hentries
      obtain ⟨r', hr', hid'⟩ := hs'.tables.entry_row e he
      exact ⟨r', hr', hid'.trans hid⟩
    · intro r' hr' hid
      rw [hagree' r' hr', hid]
      exact hentries

/-- The funds of the taker are not locked yet when a worker settles, so it fails for
good; they are when a consumer settles the same row. -/
def raceAfterRollback : List SettlementAction :=
  [.otherChange 1 2 0 (-1000), .persist "engine" 1 (some (samplePayload .buy)), .claim 1,
   .process 1 (sampleContext false), .otherChange 1 2 0 1000,
   .deliver 2 "engine" 1 (samplePayload .buy), .process 2 (sampleContext false), .commit 2]

theorem failed_row_with_entries :
    ∃ r ∈ (run sampleBalances (raceAfterRollback ++ [.recordFailure 1])).rows, r.status = .failed ∧
    (entriesOf (run sampleBalances (raceAfterRollback ++ [.recordFailure 1])).ledger r.id).length =
    4 ∧ r.id ∈ (run sampleBalances (raceAfterRollback ++ [.recordFailure 1])).applied ∧
    ∃ r' ∈ (run sampleBalances raceAfterRollback).rows, r'.id = r.id ∧ r'.status = .processed := by
  decide +kernel

def recordedInTime : List SettlementAction :=
  [.persist "engine" 1 (some (samplePayload .sell)), .claim 1, .abort 1 false,
   .recordFailure 1, .deliver 2 "engine" 1 (samplePayload .sell),
   .process 2 (sampleContext false), .commit 2]

theorem recordedInTime_processed_iff_entries : (∀ r ∈ (run sampleBalances recordedInTime).rows,
    r.status = .processed ↔ entriesOf (run sampleBalances recordedInTime).ledger r.id ≠ []) ∧
    (∀ r ∈ (run sampleBalances recordedInTime).rows, r.status = .failed → r.id ∉ (run sampleBalances
    recordedInTime).applied) ∧ ∀ r ∈ (run sampleBalances recordedInTime).rows, r.status = .processed
    → (∃ r' ∈ (run sampleBalances (recordedInTime ++ [.claim 1])).rows, r'.id = r.id) ∧ ∀ r' ∈ (run
    sampleBalances (recordedInTime ++ [.claim 1])).rows, r'.id = r.id → r'.status = .processed :=
  processed_iff_entries (by decide +kernel)

end SettlementState

end MetherCEX
