import MetherCEX.Settlement.Consistency
import MetherCEX.Settlement.Value

/-!
# A settlement row is applied at most once

Workers and consumers race on the same rows, and any of them may fail, crash or start over.
-/

namespace MetherCEX

open Run

namespace SettlementState

variable {s s' : SettlementState} {bal : Balances}

def Balanced (bal : Balances) (s : SettlementState) : Prop :=
  ∀ u c, (s.balances u c).total = (bal u c).total + s.external u c + ledgerSum s.ledger u c

variable (h : Balanced bal s)

include h

theorem Balanced.congr (hbalances : s'.balances = s.balances)
    (hexternal : s'.external = s.external) (hledger : s'.ledger = s.ledger) : Balanced bal s' := by
  intro u c
  rw [hbalances, hexternal, hledger]
  exact h u c

theorem Balanced.of_sameTables (hs : SameTables s s') : Balanced bal s' :=
  h.congr hs.balances hs.external hs.ledger

theorem Balanced.write {p : ProcessId} {tx : Transaction} {eff : SettlementEffect}
    (htx : TxOk MarketAssets.Distinct s p tx) (heff : tx.effect = some eff) :
    Balanced bal (s.write tx eff) := by
  intro u c
  cases htx.effect eff heff with
  | replay entries effect =>
    simp only [SettlementState.write, effect, List.append_nil]
    exact h u c
  | settled t payload entries users market locks effect =>
    simp only [SettlementState.write, effect]
    rw [t.total_updates market users s.balances tx.row.id, h u c, ledgerSum, ledgerSum,
      ledgerSum, Tally.tally_append]
    ring

theorem Balanced.otherChange (u : UserId) (c : CurrencyId) (a l : ℚ) :
    Balanced bal (s.otherChange u c a l) := by
  by_cases hlock : s.locks (.balance u c) ≠ none
  · rwa [SettlementState.otherChange, if_pos hlock]
  · rw [SettlementState.otherChange, if_neg hlock]
    intro u' c'
    have hbal := h u' c'
    by_cases hkey : u' = u ∧ c' = c
    · obtain ⟨rfl, rfl⟩ := hkey
      simp only [Balances.set, and_self, if_true, Bucket.total] at hbal ⊢
      linarith
    · simp only [Balances.set, if_neg hkey, add_zero]
      exact hbal

theorem Balanced.step (hs : Consistent MarketAssets.Distinct s) (a : SettlementAction) :
    Balanced bal (s.step a) := by
  cases tableStep s a with
  | quiet tables => exact h.of_sameTables tables
  | persisted r id status tables => exact h.congr tables.balances tables.external tables.ledger
  | committed p tx eff progress effect tables =>
    exact (h.write (hs.txs p tx progress) effect).of_sameTables tables
  | retried id tables => exact h.congr tables.balances tables.external tables.ledger
  | failed p id action progress tables =>
    exact h.congr tables.balances tables.external tables.ledger
  | changed u c dAvailable dLocked tables =>
    exact (h.otherChange u c dAvailable dLocked).of_sameTables tables

/-- Every row that is settled belongs to a market of two different currencies. -/
def TwoCurrencies (s : SettlementState) (a : SettlementAction) : Prop :=
  ∀ m ∈ s.settledMarket a, m.Distinct
  deriving Decidable

omit h

/-- A consumer crashes after it has settled, the row is stored by the poller, and a
worker and a second consumer race for it. -/
def racedRun : List SettlementAction :=
  [.deliver 1 "engine" 1 (samplePayload .buy), .process 1 (sampleContext false), .crash 1,
   .persist "engine" 1 (some (samplePayload .buy)), .claim 2, .process 2 (sampleContext false),
   .deliver 3 "engine" 1 (samplePayload .buy), .otherChange 1 2 5 0, .commit 2,
   .deliver 3 "engine" 1 (samplePayload .buy), .otherChange 1 2 5 0, .claim 4]

def oneCurrencyContext : SettlementContext :=
  { sampleContext false with
    markets := [{ sampleMarket with
      baseAsset := "USDT"
      baseCurrencyId := some 2 }] }

def oneCurrencyRun : List SettlementAction :=
  [.persist "engine" 1 (some (samplePayload .buy)), .claim 1, .process 1 oneCurrencyContext,
   .commit 1]

end SettlementState

end MetherCEX
