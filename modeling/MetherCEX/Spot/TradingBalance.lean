import MetherCEX.Lib.Run
import MetherCEX.Settlement.BalanceLedger

/-!
# The trading balances and their ledger

The four operations of `spot-balance.service.ts` move an amount between the available and the
locked balance of a user in a currency, or into or out of them.
-/

namespace MetherCEX

open Checks Decimal Tally

def Bucket.set (b : Bucket) (k : BalanceType) (x : ℚ) : Bucket :=
  match k with
  | .available => { b with available := x }
  | .locked => { b with locked := x }

structure BucketMove where
  balanceType : BalanceType
  debit : ℚ
  credit : ℚ

/-- The tables; a row of `user_balances` that does not exist reads as zero. -/
structure TradingAccounts where
  bal : Balances
  ledger : List BalanceLedgerRow

namespace TradingAccounts

def init : TradingAccounts := ⟨fun _ _ => ⟨0, 0⟩, []⟩

section Calls

variable (scale : ℕ) (userId : UserId) (currencyId : CurrencyId)

/-- One bucket is updated, and its row of the ledger is written, in columns of the given
scale. -/
def moveBucket (s : TradingAccounts) (m : BucketMove) : TradingAccounts :=
  let before := (s.bal userId currencyId).get m.balanceType
  let after := roundHalfUp scale (before + m.credit - m.debit)
  ⟨s.bal.set userId currencyId ((s.bal userId currencyId).set m.balanceType after),
    s.ledger ++ [BalanceLedgerRow.stored scale
      ⟨userId, currencyId, m.debit, m.credit, before, after, m.balanceType⟩]⟩

variable (s : TradingAccounts)

/-- The part that the operations share: the `UPDATE` of one or both buckets,
`assertBalanceInvariant`, and the rows of the ledger. -/
def move (moves : List BucketMove) : Except String (Bool × TradingAccounts) := do
  let s' := moves.foldl (moveBucket scale userId currencyId) s
  refuseIf ((s'.bal userId currencyId).available < 0 ∨ (s'.bal userId currencyId).locked < 0)
    "user_balances invariant violated"
  pure (true, s')

/-- The operations that take an amount from a bucket, and what they return if it has less. -/
def moveFrom (k : BalanceType) (amount : ℚ) (onLow : Except String (Bool × TradingAccounts))
    (moves : List BucketMove) : Except String (Bool × TradingAccounts) :=
  if (s.bal userId currencyId).get k < amount then onLow else move scale userId currencyId s moves

variable (amount : ℚ)

def lockTradingBalance : Except String (Bool × TradingAccounts) :=
  moveFrom scale userId currencyId s .available amount (.ok (false, s))
    [⟨.available, amount, 0⟩, ⟨.locked, 0, amount⟩]

def unlockTradingBalance : Except String (Bool × TradingAccounts) :=
  moveFrom scale userId currencyId s .locked amount
    (.error "unlockTradingBalance: no rows or insufficient locked")
    [⟨.available, 0, amount⟩, ⟨.locked, amount, 0⟩]

def debitLockedTradingBalance : Except String (Bool × TradingAccounts) :=
  moveFrom scale userId currencyId s .locked amount (.ok (false, s)) [⟨.locked, amount, 0⟩]

def creditTradingBalance : Except String (Bool × TradingAccounts) :=
  move scale userId currencyId s [⟨.available, 0, amount⟩]

end Calls

inductive Operation
  | lock
  | unlock
  | debitLocked
  | credit
  deriving DecidableEq

structure Call where
  operation : Operation
  userId : UserId
  currencyId : CurrencyId
  amount : ℚ

def call (scale : ℕ) (s : TradingAccounts) (c : Call) : Except String (Bool × TradingAccounts) :=
  match c.operation with
  | .lock => lockTradingBalance scale c.userId c.currencyId s c.amount
  | .unlock => unlockTradingBalance scale c.userId c.currencyId s c.amount
  | .debitLocked => debitLockedTradingBalance scale c.userId c.currencyId s c.amount
  | .credit => creditTradingBalance scale c.userId c.currencyId s c.amount

/-- The call returns `false` or throws. -/
def Fails (r : Except String (Bool × TradingAccounts)) : Prop := ∀ s', r ≠ .ok (true, s')

def commit (s : TradingAccounts) : Except String (Bool × TradingAccounts) → TradingAccounts
  | .ok r => r.2
  | .error _ => s

def step (scale : ℕ) (s : TradingAccounts) (c : Call) : TradingAccounts :=
  s.commit (s.call scale c)

/-- A positive amount that the columns round the same way wherever it is added or taken. -/
def Call.Exact (scale : ℕ) (c : Call) : Prop := 0 < c.amount ∧ ¬ Halfway scale c.amount
  deriving Decidable

/-- A move that takes no more than there is, of an amount that is rounded alike. -/
structure Fits (scale : ℕ) (x : ℚ) (m : BucketMove) : Prop where
  debit_nonneg : 0 ≤ m.debit
  credit_nonneg : 0 ≤ m.credit
  one_way : m.debit = 0 ∨ m.credit = 0
  debit_le : m.debit ≤ x
  exact_debit : ¬ Halfway scale m.debit

variable {amount x : ℚ} {scale : ℕ} {k : BalanceType}

theorem Fits.ofDebit (hpos : 0 < amount) (hexact : ¬ Halfway scale amount) (hle : amount ≤ x) :
    Fits scale x ⟨k, amount, 0⟩ :=
  ⟨hpos.le, le_rfl, .inr rfl, hle, hexact⟩

theorem Fits.ofCredit (hpos : 0 < amount) (hx : 0 ≤ x) : Fits scale x ⟨k, 0, amount⟩ :=
  ⟨le_rfl, hpos.le, .inl rfl, hx, by simp [Halfway]⟩

/-- What every reachable state satisfies: a bucket is a value of its column, not negative, and
what the rows of the ledger add up to. -/
structure Booked (scale : ℕ) (s : TradingAccounts) : Prop where
  onGrid : ∀ u c k, OnGrid scale ((s.bal u c).get k)
  nonneg : ∀ u c k, 0 ≤ (s.bal u c).get k
  rows : ∀ u c k, rowsSum s.ledger u c k = (s.bal u c).get k

section Moves

variable {scale : ℕ} {s : TradingAccounts} {u : UserId} {c : CurrencyId} {m : BucketMove}

theorem get_moveBucket (u' : UserId) (c' : CurrencyId) (k : BalanceType) : ((moveBucket
    scale u c s m).bal u' c').get k = if (u, c, m.balanceType) = (u', c', k) then roundHalfUp
    scale ((s.bal u c).get m.balanceType + m.credit - m.debit) else (s.bal u' c').get k := by
  by_cases hkey : u' = u ∧ c' = c
  · obtain ⟨rfl, rfl⟩ := hkey
    cases hm : m.balanceType <;> cases k <;>
      simp [moveBucket, Balances.set, Bucket.set, Bucket.get, hm]
  · have hne : (u, c, m.balanceType) ≠ (u', c', k) := fun heq => hkey (by simp_all)
    rw [if_neg hne]
    simp only [moveBucket, Balances.set, if_neg hkey]

def delta (scale : ℕ) (m : BucketMove) : ℚ := roundHalfUp scale m.credit - roundHalfUp scale m.debit

theorem Booked.get_moveBucket
    (h : s.Booked scale) (hm : Fits scale ((s.bal u c).get m.balanceType) m) (u' : UserId)
    (c' : CurrencyId) (k : BalanceType) : ((moveBucket scale u c s m).bal u' c').get k =
    (s.bal u' c').get k + if (u, c, m.balanceType) = (u', c', k) then delta scale m else 0 := by
  rw [TradingAccounts.get_moveBucket]
  split_ifs with hkey
  · cases hkey
    have hgrid := h.onGrid u c m.balanceType
    have hzero : roundHalfUp scale 0 = 0 := (OnGrid.zero scale).roundHalfUp_eq
    rcases hm.one_way with hd | hc
    · rw [delta, hd, sub_zero, hzero, sub_zero, hgrid.roundHalfUp_add hm.credit_nonneg
        (add_nonneg (h.nonneg u c _) hm.credit_nonneg)]
    · rw [delta, hc, add_zero, hzero, zero_sub, ← sub_eq_add_neg,
        hgrid.roundHalfUp_sub hm.debit_nonneg hm.debit_le hm.exact_debit]
  · rw [add_zero]

theorem Booked.total_moveBucket (h : s.Booked scale) (hm : Fits scale ((s.bal u c).get
    m.balanceType) m) (u' : UserId) (c' : CurrencyId) : ((TradingAccounts.moveBucket scale u c s
    m).bal u' c').total = (s.bal u' c').total + if (u, c) = (u', c') then delta scale m else 0 := by
  have havailable := h.get_moveBucket hm u' c' .available
  have hlocked := h.get_moveBucket hm u' c' .locked
  simp only [Bucket.get, Prod.mk.injEq] at havailable hlocked
  rw [Bucket.total, havailable, hlocked, Bucket.total]
  cases m.balanceType <;> simp <;> ring

theorem Booked.moveBucket (h : s.Booked scale) (hm : Fits scale ((s.bal u c).get m.balanceType) m) :
    (moveBucket scale u c s m).Booked scale := by
  refine ⟨fun u' c' k => ?_, fun u' c' k => ?_, fun u' c' k => ?_⟩
  · rw [h.get_moveBucket hm]
    split_ifs
    · exact (h.onGrid ..).add ((onGrid_roundHalfUp ..).sub (onGrid_roundHalfUp ..))
    · exact (h.onGrid ..).add (.zero scale)
  · rw [TradingAccounts.get_moveBucket]
    split_ifs
    · apply roundHalfUp_nonneg
      linarith [hm.credit_nonneg, hm.debit_le]
    · exact h.nonneg ..
  · rw [h.get_moveBucket hm, ← h.rows, TradingAccounts.moveBucket, rowsSum_append]
    simp [rowsSum, tally_cons, BalanceLedgerRow.stored, BalanceLedgerRow.key,
      BalanceLedgerRow.change, delta]

/-- What a call does: the rows follow the balances, an amount that goes from one bucket to the
other leaves their sum as it is, and a call that fails changes nothing. -/
structure Outcome (scale : ℕ) (s : TradingAccounts) (shifts : Prop)
    (r : Except String (Bool × TradingAccounts)) : Prop where
  booked : (s.commit r).Booked scale
  total : shifts → ∀ u c, ((s.commit r).bal u c).total = (s.bal u c).total
  failed : Fails r → s.commit r = s

theorem Booked.outcome_of_low (h : s.Booked scale) {r : Except String (Bool × TradingAccounts)}
    (hr : s.commit r = s) (shifts : Prop) : Outcome scale s shifts r :=
  ⟨hr.symm ▸ h, fun _ u c => by rw [hr], fun _ => hr⟩

theorem outcome_move {moves : List BucketMove}
    {shifts : Prop} (hbooked : (moves.foldl (TradingAccounts.moveBucket scale u c) s).Booked scale)
    (htotal : shifts → ∀ u' c', ((moves.foldl (TradingAccounts.moveBucket scale u c) s).bal
    u' c').total = (s.bal u' c').total) : Outcome scale s shifts (move scale u c s moves) := by
  have hnonneg : ¬ (((moves.foldl (TradingAccounts.moveBucket scale u c) s).bal u c).available < 0 ∨
      ((moves.foldl (TradingAccounts.moveBucket scale u c) s).bal u c).locked < 0) := by
    rw [not_or, not_lt, not_lt]
    exact ⟨hbooked.nonneg u c .available, hbooked.nonneg u c .locked⟩
  have heq : move scale u c s moves = .ok (true, _) := refuseIf_bind_eq_ok.mpr ⟨hnonneg, rfl⟩
  rw [heq]
  exact ⟨hbooked, htotal, fun hfails => absurd rfl (hfails _)⟩

theorem Booked.outcome_single (h : s.Booked scale) (hm :
    Fits scale ((s.bal u c).get m.balanceType) m) : Outcome scale s False (move scale u c s [m]) :=
  outcome_move (h.moveBucket hm) False.elim

theorem Booked.outcome_shift (h : s.Booked scale) {m' : BucketMove}
    (hne : m.balanceType ≠ m'.balanceType) (hm : Fits scale ((s.bal u c).get m.balanceType) m)
    (hm' : Fits scale ((s.bal u c).get m'.balanceType) m') (hback : delta scale m' =
    -delta scale m) : Outcome scale s True (move scale u c s [m, m']) := by
  have hfirst := h.moveBucket hm
  have hother := h.get_moveBucket hm u c m'.balanceType
  rw [if_neg (by simp [hne]), add_zero] at hother
  rw [← hother] at hm'
  refine outcome_move (hfirst.moveBucket hm') fun _ u' c' => ?_
  rw [List.foldl_cons, List.foldl_cons, List.foldl_nil, hfirst.total_moveBucket hm',
    h.total_moveBucket hm, hback]
  split_ifs <;> ring

end Moves

theorem Booked.call {s : TradingAccounts} (h : s.Booked scale) {c : Call} (hc : c.Exact scale) :
    Outcome scale s (c.operation = .lock ∨ c.operation = .unlock) (s.call scale c) := by
  obtain ⟨hpos, hexact⟩ := hc
  have hnonneg := h.nonneg c.userId c.currencyId
  unfold TradingAccounts.call lockTradingBalance unlockTradingBalance debitLockedTradingBalance
    creditTradingBalance moveFrom
  cases c.operation with
  | lock =>
    dsimp only
    split_ifs with hlow
    · exact h.outcome_of_low rfl _
    · have hshift := h.outcome_shift (m := ⟨.available, c.amount, 0⟩) (by simp)
        (.ofDebit hpos hexact (not_lt.mp hlow)) (.ofCredit hpos (hnonneg .locked))
        (by simp [delta])
      exact ⟨hshift.booked, fun _ => hshift.total trivial, hshift.failed⟩
  | unlock =>
    dsimp only
    split_ifs with hlow
    · exact h.outcome_of_low rfl _
    · have hshift := h.outcome_shift (m := ⟨.available, 0, c.amount⟩) (by simp)
        (.ofCredit hpos (hnonneg .available)) (.ofDebit hpos hexact (not_lt.mp hlow))
        (by simp [delta])
      exact ⟨hshift.booked, fun _ => hshift.total trivial, hshift.failed⟩
  | debitLocked =>
    dsimp only
    split_ifs with hlow
    · exact h.outcome_of_low rfl _
    · have hsingle := h.outcome_single (.ofDebit hpos hexact (not_lt.mp hlow))
      exact ⟨hsingle.booked, by simp, hsingle.failed⟩
  | credit =>
    have hsingle := h.outcome_single (.ofCredit hpos (hnonneg .available))
    exact ⟨hsingle.booked, by simp, hsingle.failed⟩

theorem booked_run {calls : List Call} (hcalls : ∀ c ∈ calls, c.Exact scale) :
    (calls.foldl (step scale) init).Booked scale := by
  induction calls using List.reverseRecOn with
  | nil =>
    have hzero : ∀ u c k, (init.bal u c).get k = 0 := by intro u c k; cases k <;> rfl
    exact ⟨fun u c k => hzero u c k ▸ .zero scale, fun u c k => (hzero u c k).ge,
      fun u c k => (hzero u c k).symm⟩
  | append_singleton calls c ih =>
    rw [List.forall_mem_append] at hcalls
    rw [List.foldl_append]
    exact ((ih hcalls.1).call (hcalls.2 c (List.mem_singleton_self c))).booked

/-- After every sequence of calls with positive amounts that are not in the middle between two
values of the columns: no bucket is negative, each is what the rows of the ledger add up to, a
further lock or unlock leaves the sum of the two buckets as it is, and a further call that
fails changes nothing. -/
theorem trading_balances_agree (scale : ℕ) (calls : List Call)
    (hcalls : ∀ c ∈ calls, c.Exact scale) (c : Call) (hc : c.Exact scale) :
    let s := calls.foldl (step scale) init
    (∀ u cur k, 0 ≤ (s.bal u cur).get k ∧ rowsSum s.ledger u cur k = (s.bal u cur).get k) ∧
      ((c.operation = .lock ∨ c.operation = .unlock) →
        ∀ u cur, ((s.step scale c).bal u cur).total = (s.bal u cur).total) ∧
      (Fails (s.call scale c) → s.step scale c = s) := by
  have hbooked := booked_run hcalls
  have hcall := hbooked.call hc
  exact ⟨fun u cur k => ⟨hbooked.nonneg u cur k, hbooked.rows u cur k⟩, hcall.total, hcall.failed⟩

/-- The user 1 is credited one unit and locks half of it. -/
theorem locked_half_agrees :
    ((step 18 (step 18 init ⟨.credit, 1, 2, 1⟩) ⟨.lock, 1, 2, 1 / 2⟩).bal 1 2).total =
      ((step 18 init ⟨.credit, 1, 2, 1⟩).bal 1 2).total :=
  (trading_balances_agree 18 [⟨.credit, 1, 2, 1⟩] (by decide +kernel) ⟨.lock, 1, 2, 1 / 2⟩
    (by decide +kernel)).2.1 (.inl rfl) 1 2

/-- Half a unit of the last place of the columns is credited, which makes one unit of it, and
locked: the available balance stays, and one unit is put into the locked one. -/
theorem halfway_lock_creates_funds :
    let s := step 18 init ⟨.credit, 1, 2, 1 / 2 / 10 ^ 18⟩
    (s.bal 1 2).total = 1 / 10 ^ 18 ∧
      ((s.step 18 ⟨.lock, 1, 2, 1 / 2 / 10 ^ 18⟩).bal 1 2).total = 2 / 10 ^ 18 := by
  decide +kernel

end TradingAccounts

end MetherCEX
