import MetherCEX.Lib.Checks
import MetherCEX.Lib.Decimal
import MetherCEX.Lib.Tally
import MetherCEX.Settlement.Row

/-!
# Balances and their ledger

A row of `user_balances` belongs to a user, a currency, a chain and an account type. Whoever
changes a row writes a line of `balance_ledger` for every bucket that moves
(`insertBalanceLedger`).
-/

namespace MetherCEX

open Checks Decimal Tally

abbrev TokenId := ℕ

/-- A chain, or `CHAIN_ID_GLOBAL` for a balance without one. -/
abbrev ChainId := String

def chainIdGlobal : ChainId := ""

def amountPrecision : ℕ := 8

def toAmount (amount : ℚ) : ℚ := roundDown amountPrecision amount

inductive AccountType
  | funding
  | spot
  | trading
  deriving DecidableEq

/-- The key of a row of `user_balances`. -/
structure WalletKey where
  userId : UserId
  currencyId : CurrencyId
  chainId : ChainId
  accountType : AccountType
  deriving DecidableEq

structure WalletRow where
  available : ℚ
  locked : ℚ
  pending : ℚ
  totalDeposited : ℚ
  deriving DecidableEq

inductive WalletBucket
  | available
  | locked
  deriving DecidableEq

/-- The reference type and id of a line. The lines of the other services are `other`. -/
inductive WalletReference
  | deposit (id : Uuid)
  | withdrawal (id : Uuid)
  | other
  deriving DecidableEq

/-- A line of `balance_ledger`. -/
structure WalletEntry where
  key : WalletKey
  debit : ℚ
  credit : ℚ
  balanceBefore : ℚ
  balanceAfter : ℚ
  reference : WalletReference
  balanceType : WalletBucket
  deriving DecidableEq

/-- A row that does not exist yet reads as zero. -/
structure Wallet where
  balances : WalletKey → WalletRow
  ledger : List WalletEntry

def WalletRow.bucket (row : WalletRow) : WalletBucket → ℚ
  | .available => row.available
  | .locked => row.locked

/-- `assertBalanceInvariant`. -/
def WalletRow.Valid (row : WalletRow) : Prop :=
  0 ≤ row.available ∧ 0 ≤ row.locked ∧ 0 ≤ row.pending
  deriving Decidable

def WalletEntry.change (e : WalletEntry) : ℚ := e.credit - e.debit

def WalletEntry.move (e : WalletEntry) : WalletKey × WalletBucket × ℚ :=
  (e.key, e.balanceType, e.change)

namespace Wallet

def write (w : Wallet) (key : WalletKey) (row : WalletRow) (entries : List WalletEntry) : Wallet :=
  { balances := Function.update w.balances key row, ledger := w.ledger ++ entries }

def moved (entries : List WalletEntry) (key : WalletKey) (bucket : WalletBucket) : ℚ :=
  tally (fun e => (e.key, e.balanceType)) WalletEntry.change entries (key, bucket)

/-- Every bucket has moved from `start` by its lines. -/
def Accounted (start : WalletKey → WalletRow) (w : Wallet) : Prop :=
  ∀ key bucket, (w.balances key).bucket bucket =
    (start key).bucket bucket + moved w.ledger key bucket

def movesOf (w : Wallet) (reference : WalletReference) : List (WalletKey × WalletBucket × ℚ) :=
  (w.ledger.filter fun e => e.reference = reference).map WalletEntry.move

variable {start : WalletKey → WalletRow} {w : Wallet} {key : WalletKey} {row : WalletRow}
  {entries : List WalletEntry}

theorem accounted_init : Accounted start ⟨start, []⟩ := by
  intro key bucket
  rw [moved, tally_nil, add_zero]

theorem Accounted.write (h : Accounted start w) (hkey : ∀ e ∈ entries, e.key = key) (hrow :
    ∀ bucket, row.bucket bucket = (w.balances key).bucket bucket + moved entries key bucket) :
    Accounted start (w.write key row entries) := by
  intro key' bucket
  simp only [Wallet.write, moved, tally_append]
  by_cases hk : key' = key
  · subst hk
    rw [Function.update_self, hrow, h]
    exact add_assoc _ _ _
  · have hzero : tally (fun e => (e.key, e.balanceType)) WalletEntry.change entries
        (key', bucket) = 0 := by
      refine tally_eq_zero _ _ fun e he heq => hk ?_
      rw [← hkey e he]
      exact (congrArg Prod.fst heq).symm
    rw [Function.update_of_ne hk, h, hzero, add_zero]
    rfl

theorem movesOf_write {reference : WalletReference}
    (href : ∀ e ∈ entries, e.reference = reference) : (w.write key row entries).movesOf reference =
    w.movesOf reference ++ entries.map WalletEntry.move := by
  have hall : entries.filter (fun e => e.reference = reference) = entries :=
    List.filter_eq_self.mpr fun e he => decide_eq_true (href e he)
  simp only [movesOf, write, List.filter_append, List.map_append, hall]

theorem movesOf_write_of_ne {reference : WalletReference} (href : ∀ e ∈ entries, e.reference ≠
    reference) : (w.write key row entries).movesOf reference = w.movesOf reference := by
  have hnone : entries.filter (fun e => e.reference = reference) = [] :=
    List.filter_eq_nil_iff.mpr fun e he => by simpa using href e he
  simp only [movesOf, write, List.filter_append, hnone, List.append_nil]

end Wallet

end MetherCEX
