import Mathlib.Algebra.Order.BigOperators.Group.List
import Mathlib.Tactic.Linarith
import MetherCEX.Lib.Run
import MetherCEX.Lib.Table

/-!
# Closing the locks of the funding account

`lockBalance`, `unlockBalance` and `debitLockedBalance` each take the first row with enough in it,
and not the row in which the amount was locked.
-/

namespace MetherCEX

open Run Table List

structure LockRow where
  available : ℚ
  locked : ℚ
  deriving DecidableEq

/-- The two funding rows of a user and a token, the amounts of the open locks, the credits minus the
debits so far, and what the closing calls have returned. -/
structure FundingState where
  chainRow : LockRow
  globalRow : LockRow
  openLocks : List ℚ
  flow : ℚ
  results : List Bool
  deriving DecidableEq

/-- A lock is closed by its position among the open ones, with a debit or an unlock. -/
inductive FundingAction
  | lock (amount : ℚ)
  | close (i : ℕ) (debit : Bool)
  | credit (amount : ℚ≥0)
  deriving DecidableEq

namespace FundingState

def init (chain global : ℚ) : FundingState := ⟨⟨chain, 0⟩, ⟨global, 0⟩, [], 0, []⟩

/-- The row of the chain is changed if it has enough, else the global row. -/
def onRow (s : FundingState) (enough : LockRow → Bool) (f : LockRow → LockRow) :
    Option FundingState :=
  if enough s.chainRow then some { s with chainRow := f s.chainRow }
  else if enough s.globalRow then some { s with globalRow := f s.globalRow }
  else none

def lockBalance (s : FundingState) (amount : ℚ) : Option FundingState :=
  if amount < 0 then none
  else s.onRow (amount ≤ ·.available) fun r => ⟨r.available - amount, r.locked + amount⟩

def unlockBalance (s : FundingState) (amount : ℚ) : Option FundingState :=
  if amount < 0 then none
  else s.onRow (amount ≤ ·.locked) fun r => ⟨r.available + amount, r.locked - amount⟩

def debitLockedBalance (s : FundingState) (amount : ℚ) : Option FundingState :=
  s.onRow (amount ≤ ·.locked) fun r => ⟨r.available, r.locked - amount⟩

def creditBalance (s : FundingState) (amount : ℚ) : Option FundingState :=
  s.onRow (fun _ => true) fun r => ⟨r.available + amount, r.locked⟩

def close (s : FundingState) (i : ℕ) (amount : ℚ) (debit : Bool) : FundingState :=
  match if debit then s.debitLockedBalance amount else s.unlockBalance amount with
  | none => { s with results := s.results ++ [false] }
  | some s' => { s' with
      openLocks := s.openLocks.eraseIdx i
      flow := if debit then s.flow - amount else s.flow
      results := s.results ++ [true] }

def step (s : FundingState) : FundingAction → FundingState
  | .lock amount =>
    match s.lockBalance amount with
    | none => s
    | some s' => { s' with openLocks := s.openLocks ++ [amount] }
  | .close i debit =>
    match s.openLocks[i]? with
    | none => s
    | some amount => s.close i amount debit
  | .credit amount => ((s.creditBalance amount).map ({ · with flow := s.flow + amount })).getD s

def run (chain global : ℚ) (acts : List FundingAction) : FundingState :=
  acts.foldl step (init chain global)

/-- Every closing call has returned true, the locked balances are the open locks, and the rest is
accounted for by credits and debits. -/
structure Closable (total : ℚ) (s : FundingState) : Prop where
  closed : ∀ b ∈ s.results, b = true
  locked : s.chainRow.locked + s.globalRow.locked = s.openLocks.sum
  total : s.chainRow.available + s.chainRow.locked + s.globalRow.available + s.globalRow.locked =
    total + s.flow

/-- A lock is taken from a row only while nothing is locked in the other one. -/
def OneRow (s : FundingState) : FundingAction → Prop
  | .lock amount => if amount ≤ s.chainRow.available then s.globalRow.locked = 0
      else s.chainRow.locked = 0
  | _ => True

instance (s : FundingState) (act) : Decidable (s.OneRow act) := by
  cases act <;> dsimp only [OneRow] <;> infer_instance

theorem onRow_eq_some {s s' : FundingState} {enough : LockRow → Bool}
    {f : LockRow → LockRow} (h : s.onRow enough f = some s') :
    enough s.chainRow = true ∧ s' = { s with chainRow := f s.chainRow } ∨
      enough s.chainRow = false ∧ s' = { s with globalRow := f s.globalRow } := by
  unfold onRow at h
  split_ifs at h with hchain
  · exact .inl ⟨hchain, (Option.some.inj h).symm⟩
  · exact .inr ⟨eq_false_of_ne_true hchain, (Option.some.inj h).symm⟩

/-- The two ways to close a lock, which differ in the available balance. -/
theorem closing_eq {s : FundingState} {amount : ℚ} (h : 0 ≤ amount) (debit : Bool) : (if debit
    then s.debitLockedBalance amount else s.unlockBalance amount) = s.onRow (amount ≤ ·.locked)
    fun r => ⟨if debit then r.available else r.available + amount, r.locked - amount⟩ := by
  cases debit with
  | true => rfl
  | false => exact if_neg (not_lt.mpr h)

/-- What holds while all locks are in one row. -/
structure InOneRow (total : ℚ) (s : FundingState) : Prop extends Closable total s where
  nonneg : ∀ amount ∈ s.openLocks, 0 ≤ amount
  one : s.chainRow.locked = 0 ∨ s.globalRow.locked = 0

namespace InOneRow

variable {total : ℚ} {s : FundingState} (h : s.InOneRow total)
include h

theorem lock {amount : ℚ} (hact : s.OneRow (.lock amount)) :
    (s.step (.lock amount)).InOneRow total := by
  have hlocked := h.locked
  have htotal := h.total
  simp only [step, lockBalance]
  by_cases hneg : amount < 0
  · simpa only [if_pos hneg] using h
  rw [if_neg hneg]
  have hnonneg := forall_mem_concat h.nonneg (not_lt.mp hneg)
  have hsum : (s.openLocks ++ [amount]).sum = s.openLocks.sum + amount := by simp
  cases hrow : s.onRow _ _ with
  | none => exact h
  | some s' =>
    simp only [OneRow] at hact
    obtain ⟨hchain, rfl⟩ | ⟨hchain, rfl⟩ := onRow_eq_some hrow
    · rw [if_pos (of_decide_eq_true hchain)] at hact
      exact ⟨⟨h.closed, by dsimp only; linarith, by dsimp only; linarith⟩, hnonneg, .inr hact⟩
    · rw [if_neg (of_decide_eq_false hchain)] at hact
      exact ⟨⟨h.closed, by dsimp only; linarith, by dsimp only; linarith⟩, hnonneg, .inl hact⟩

/-- All open locks are in one row, so that row has enough for each of them. -/
theorem close {i : ℕ} {amount : ℚ} (hget : s.openLocks[i]? = some amount) (debit : Bool) :
    (s.close i amount debit).InOneRow total := by
  have hlocked := h.locked
  have htotal := h.total
  have hnonneg := h.nonneg amount (mem_of_getElem? hget)
  have hperm := cons_eraseIdx_perm hget
  have hsum := hperm.sum_eq
  rw [sum_cons] at hsum
  have hrest : ∀ x ∈ s.openLocks.eraseIdx i, 0 ≤ x := fun x hx =>
    h.nonneg x (mem_of_mem_eraseIdx hx)
  have hle := sum_nonneg hrest
  have hclosed := forall_mem_concat h.closed (rfl : true = true)
  rw [FundingState.close, closing_eq hnonneg]
  cases hrow : s.onRow _ _ with
  | none =>
    simp only [onRow, decide_eq_true_eq] at hrow
    split_ifs at hrow with hchain hglobal
    rcases h.one with hzero | hzero <;> linarith
  | some s' =>
    obtain ⟨hchain, rfl⟩ | ⟨hchain, rfl⟩ := onRow_eq_some hrow
    · have hchain := of_decide_eq_true hchain
      refine ⟨⟨hclosed, by dsimp only; linarith, ?_⟩, hrest, h.one.imp_left fun hzero => ?_⟩
      · dsimp only
        split_ifs <;> linarith
      · dsimp only
        linarith
    · have hchain := of_decide_eq_false hchain
      refine ⟨⟨hclosed, by dsimp only; linarith, ?_⟩, hrest, ?_⟩
      · dsimp only
        split_ifs <;> linarith
      · rcases h.one with hzero | hzero
        · exact .inl hzero
        · linarith

theorem step {act : FundingAction} (hact : s.OneRow act) : (s.step act).InOneRow total := by
  cases act with
  | lock amount => exact h.lock hact
  | credit amount =>
    have htotal := h.total
    exact ⟨⟨h.closed, h.locked, by simp [FundingState.step, creditBalance, onRow]; linarith⟩,
      h.nonneg, h.one⟩
  | close i debit =>
    simp only [FundingState.step]
    split
    · exact h
    next amount hget => exact h.close hget debit

end InOneRow

/-- Two locks of 3 and one of 5 are taken, and the one of 5 is closed first. -/
def threeLocks : List FundingAction :=
  [.lock 3, .lock 3, .lock 5, .close 2 false, .close 1 false, .close 0 true]

end FundingState

end MetherCEX
