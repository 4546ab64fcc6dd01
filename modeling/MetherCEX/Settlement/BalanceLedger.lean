import MetherCEX.Settlement.Value

/-!
# The rows of `balance_ledger`

A settlement writes the change of its four balances a third time: for each bucket that moves, a
row of `balance_ledger` with the difference between the new value and the value read.
-/

namespace MetherCEX

open Checks Decimal Tally List

inductive BalanceType
  | available
  | locked
  deriving DecidableEq

def Bucket.get (b : Bucket) : BalanceType → ℚ
  | .available => b.available
  | .locked => b.locked

/-- A row of `balance_ledger` of the trading account. -/
structure BalanceLedgerRow where
  userId : UserId
  currencyId : CurrencyId
  debit : ℚ
  credit : ℚ
  balanceBefore : ℚ
  balanceAfter : ℚ
  balanceType : BalanceType
  deriving DecidableEq

namespace BalanceLedgerRow

def key (r : BalanceLedgerRow) : UserId × CurrencyId × BalanceType :=
  (r.userId, r.currencyId, r.balanceType)

def change (r : BalanceLedgerRow) : ℚ := r.credit - r.debit

def stored (scale : ℕ) (r : BalanceLedgerRow) : BalanceLedgerRow :=
  { r with
    debit := roundHalfUp scale r.debit
    credit := roundHalfUp scale r.credit
    balanceBefore := roundHalfUp scale r.balanceBefore
    balanceAfter := roundHalfUp scale r.balanceAfter }

end BalanceLedgerRow

def BalanceUpdate.stored (scale : ℕ) (x : BalanceUpdate) : BalanceUpdate :=
  { x with
    available := roundHalfUp scale x.available
    locked := roundHalfUp scale x.locked }

def rowsSum (rows : List BalanceLedgerRow) (u : UserId) (c : CurrencyId) (k : BalanceType) : ℚ :=
  tally BalanceLedgerRow.key BalanceLedgerRow.change rows (u, c, k)

def bucketRow (u : UserId) (c : CurrencyId) (k : BalanceType) (old new : ℚ) :
    BalanceLedgerRow :=
  { userId := u
    currencyId := c
    debit := if new - old < 0 then |new - old| else 0
    credit := if 0 < new - old then new - old else 0
    balanceBefore := old
    balanceAfter := new
    balanceType := k }

def bucketRows (u : UserId) (c : CurrencyId) (k : BalanceType) (old new : ℚ) :
    List BalanceLedgerRow :=
  if new - old = 0 then [] else [bucketRow u c k old new]

def mirrorRows (old : Bucket) (x : BalanceUpdate) : List BalanceLedgerRow :=
  bucketRows x.userId x.currencyId .available old.available x.available ++
    bucketRows x.userId x.currencyId .locked old.locked x.locked

/-- The rows of a settlement; the old balance is looked up by the asset of the update. -/
def SettlementTerms.balanceLedgerRows (t : SettlementTerms) (bal : Balances) :
    List BalanceLedgerRow :=
  (t.pairs.zip (t.updates bal)).flatMap fun x => mirrorRows (t.getBal bal x.1.1 x.1.2) x.2

theorem change_bucketRow (u : UserId) (c : CurrencyId) (k : BalanceType) (old new : ℚ) :
    (bucketRow u c k old new).change = new - old := by
  rw [BalanceLedgerRow.change, bucketRow]
  rcases lt_trichotomy (new - old) 0 with hneg | hzero | hpos
  · rw [if_pos hneg, if_neg hneg.not_gt, abs_of_neg hneg, zero_sub, neg_neg]
  · rw [if_neg hzero.not_lt, if_neg hzero.not_gt, sub_zero, hzero]
  · rw [if_neg hpos.not_gt, if_pos hpos, sub_zero]

theorem rowsSum_bucketRows (u u' : UserId) (c c' : CurrencyId) (k k' : BalanceType) (old new : ℚ) :
    rowsSum (bucketRows u c k old new) u' c' k' =
    if (u, c, k) = (u', c', k') then new - old else 0 := by
  rw [bucketRows]
  by_cases hzero : new - old = 0
  · rw [if_pos hzero, hzero, ite_self]
    rfl
  · rw [if_neg hzero, rowsSum, tally_cons, tally_nil, add_zero, change_bucketRow]
    rfl

theorem rowsSum_append (rows rows' : List BalanceLedgerRow) (u : UserId) (c : CurrencyId)
    (k : BalanceType) : rowsSum (rows ++ rows') u c k = rowsSum rows u c k + rowsSum rows' u c k :=
  tally_append _ _ rows rows' (u, c, k)

theorem rowsSum_mirrorRows (old : Bucket) (x : BalanceUpdate)
    (u : UserId) (c : CurrencyId) (k : BalanceType) : rowsSum (mirrorRows old x) u c k =
    if x.key = (u, c) then Bucket.get ⟨x.available, x.locked⟩ k - old.get k else 0 := by
  rw [mirrorRows, rowsSum_append, rowsSum_bucketRows, rowsSum_bucketRows]
  cases k with
  | available | locked => simp [BalanceUpdate.key, Bucket.get]

theorem rowsSum_flatMap (old : BalanceUpdate → Bucket)
    (us : List BalanceUpdate) (u : UserId) (c : CurrencyId) (k : BalanceType) :
    rowsSum (us.flatMap fun x => mirrorRows (old x) x) u c k = tally BalanceUpdate.key
    (fun x => Bucket.get ⟨x.available, x.locked⟩ k - (old x).get k) us (u, c) := by
  induction us with
  | nil => rfl
  | cons x us ih =>
    rw [flatMap_cons, rowsSum_append, rowsSum_mirrorRows, ih, tally_cons]

namespace SettlementTerms

variable {t : SettlementTerms} {bal : Balances}

/-- With two different assets, the balance looked up by asset is that of the update. -/
theorem balanceLedgerRows_eq (hmarket : t.market.Distinct) (bal : Balances) : t.balanceLedgerRows
    bal = (t.updates bal).flatMap fun x => mirrorRows (bal x.userId x.currencyId) x := by
  cases hside : t.payload.takerSide with
  | buy | sell =>
    simp [balanceLedgerRows, pairs, updates, hside, getBal, baseUpdate, quoteUpdate,
      hmarket.assetToCurrency_base]

theorem rowsSum_balanceLedgerRows (hmarket : t.market.Distinct) (husers : t.takerId ≠ t.makerId)
    (u : UserId) (c : CurrencyId) (k : BalanceType) : rowsSum (t.balanceLedgerRows bal) u c k =
    (applyUpdates bal (t.updates bal) u c).get k - (bal u c).get k := by
  have hkeys : ((t.updates bal).map (·.key)).Nodup := updates_keys_nodup hmarket husers
  rw [balanceLedgerRows_eq hmarket,
    measure_applyUpdates (fun b => b.get k) hkeys (fun _ _ => rfl) u c,
    rowsSum_flatMap (fun x => bal x.userId x.currencyId), add_sub_cancel_left]

theorem map_pair_deltas (t : SettlementTerms) :
    t.computeSettlementLedgerDeltasFromPayload.map (fun d => (d.userId, d.asset)) = t.pairs := by
  cases hside : t.payload.takerSide with
  | buy | sell => simp [computeSettlementLedgerDeltasFromPayload, hside, pairs]

theorem pairs_currency_nodup (hmarket : t.market.Distinct) (husers : t.takerId ≠ t.makerId) :
    (t.pairs.map fun x => (x.1, t.market.assetToCurrency x.2)).Nodup := by
  simp [pairs, hmarket.assetToCurrency_base, hmarket.2, hmarket.2.symm, husers]

theorem ledgerSum_entries (hmarket : t.market.Distinct) (husers : t.takerId ≠ t.makerId)
    (id : ℕ) {d : LedgerDelta} (hd : d ∈ t.computeSettlementLedgerDeltasFromPayload) :
    ledgerSum (t.entries id) d.userId (t.market.assetToCurrency d.asset) = d.delta := by
  have hkeys : (t.computeSettlementLedgerDeltasFromPayload.map fun d =>
      (d.userId, t.market.assetToCurrency d.asset)).Nodup := by
    have hpairs := pairs_currency_nodup hmarket husers
    rwa [← map_pair_deltas, map_map] at hpairs
  rw [ledgerSum, entries, tally_map]
  exact tally_eq_of_mem _ _ hkeys hd

theorem exists_update_of_mem_pairs (bal : Balances)
    (hmarket : t.market.Distinct) {pair : UserId × String} (hpair : pair ∈ t.pairs) :
    ∃ x ∈ t.updates bal, x.key = (pair.1, t.market.assetToCurrency pair.2) := by
  have hmem : (pair.1, t.market.assetToCurrency pair.2) ∈ (t.updates bal).map (·.key) := by
    rw [updates_keys]
    rcases pair with ⟨user, asset⟩
    simp only [pairs, mem_cons, Prod.mk.injEq, not_mem_nil, or_false] at hpair
    rcases hpair with ⟨rfl, rfl⟩ | ⟨rfl, rfl⟩ | ⟨rfl, rfl⟩ | ⟨rfl, rfl⟩ <;>
      simp [hmarket.assetToCurrency_base]
  obtain ⟨x, hx, hkey⟩ := mem_map.mp hmem
  exact ⟨x, hx, hkey⟩

theorem onGrid_amounts {scale : ℕ} (hqty : t.market.qtyPrecision ≤ scale)
    (hquote : t.market.quotePrecision ≤ scale) : OnGrid scale t.qty ∧
    OnGrid scale t.tradeVal ∧ OnGrid scale t.takerFeeAmt ∧ OnGrid scale t.makerFeeAmt ∧
    OnGrid scale t.makerQuoteNetCredit ∧ OnGrid scale t.takerQuoteNetCredit :=
  ⟨(onGrid_roundDown _ _).of_le hqty, (onGrid_roundDown _ _).of_le hquote,
    (onGrid_roundDown _ _).of_le hquote, (onGrid_roundDown _ _).of_le hquote,
    (onGrid_roundDown _ _).of_le hquote, (onGrid_roundDown _ _).of_le hquote⟩

end SettlementTerms

def Balances.Stored (scale : ℕ) (bal : Balances) : Prop :=
  ∀ u c, OnGrid scale (bal u c).available ∧ OnGrid scale (bal u c).locked

variable {scale : ℕ} {bal : Balances}

variable {t : SettlementTerms} {us : List BalanceUpdate} {old new : ℚ}

theorem SettlementTerms.onGrid_updates (hbal : bal.Stored scale)
    (hqty : t.market.qtyPrecision ≤ scale) (hquote : t.market.quotePrecision ≤ scale) :
    ∀ x ∈ t.updates bal, OnGrid scale x.available ∧ OnGrid scale x.locked := by
  obtain ⟨hq, hv, htf, hmf, hmn, htn⟩ := onGrid_amounts hqty hquote
  have hzero := OnGrid.zero scale
  have hbase : ∀ u d d', OnGrid scale d → OnGrid scale d' →
      OnGrid scale (t.baseUpdate bal u d d').available ∧
        OnGrid scale (t.baseUpdate bal u d d').locked :=
    fun u d d' hd hd' => ⟨(hbal u _).1.add hd, (hbal u _).2.add hd'⟩
  have hquoted : ∀ u d d', OnGrid scale d → OnGrid scale d' →
      OnGrid scale (t.quoteUpdate bal u d d').available ∧
        OnGrid scale (t.quoteUpdate bal u d d').locked :=
    fun u d d' hd hd' => ⟨(hbal u _).1.add hd, (hbal u _).2.add hd'⟩
  cases hside : t.payload.takerSide with
  | buy =>
    simp only [updates, hside, forall_mem_cons]
    exact ⟨hbase _ _ _ hq hzero, hquoted _ _ _ htf.neg hv.neg, hbase _ _ _ hzero hq.neg,
      hquoted _ _ _ hmn hzero, forall_mem_nil _⟩
  | sell =>
    simp only [updates, hside, forall_mem_cons]
    exact ⟨hbase _ _ _ hzero hq.neg, hquoted _ _ _ htn hzero, hbase _ _ _ hq hzero,
      hquoted _ _ _ hmf.neg hv.neg, forall_mem_nil _⟩

theorem BalanceUpdate.stored_eq {x : BalanceUpdate}
    (hx : OnGrid scale x.available ∧ OnGrid scale x.locked) : x.stored scale = x := by
  rw [stored, hx.1.roundHalfUp_eq, hx.2.roundHalfUp_eq]

theorem map_stored_updates (h : ∀ x ∈ us, OnGrid scale x.available ∧ OnGrid scale x.locked) :
    us.map (BalanceUpdate.stored scale) = us := by
  rw [map_congr_left fun x hx => BalanceUpdate.stored_eq (h x hx), map_id']

theorem stored_bucketRow (u : UserId) (c : CurrencyId) (k : BalanceType) (hold : OnGrid scale old)
    (hnew : OnGrid scale new) :
    (bucketRow u c k old new).stored scale = bucketRow u c k old new := by
  have hdiff : OnGrid scale (new - old) := hnew.sub hold
  have hdebit : OnGrid scale (if new - old < 0 then |new - old| else 0) := by
    split_ifs with hneg
    · rw [abs_of_neg hneg]
      exact hdiff.neg
    · exact .zero scale
  have hcredit : OnGrid scale (if 0 < new - old then new - old else 0) := by
    split_ifs
    · exact hdiff
    · exact .zero scale
  simp only [BalanceLedgerRow.stored, bucketRow, hdebit.roundHalfUp_eq, hcredit.roundHalfUp_eq,
    hold.roundHalfUp_eq, hnew.roundHalfUp_eq]

theorem map_stored_bucketRows (u : UserId)
    (c : CurrencyId) (k : BalanceType) (hold : OnGrid scale old) (hnew : OnGrid scale new) :
    (bucketRows u c k old new).map (BalanceLedgerRow.stored scale) = bucketRows u c k old new := by
  rw [bucketRows]
  split_ifs
  · rfl
  · rw [map_singleton, stored_bucketRow u c k hold hnew]

theorem map_stored_rows
    (hbal : bal.Stored scale) (h : ∀ x ∈ us, OnGrid scale x.available ∧ OnGrid scale x.locked) :
    (us.flatMap fun x => mirrorRows (bal x.userId x.currencyId) x).map (BalanceLedgerRow.stored
    scale) = us.flatMap fun x => mirrorRows (bal x.userId x.currencyId) x := by
  rw [map_flatMap]
  refine flatMap_congr fun x hx => ?_
  rw [mirrorRows, map_append, map_stored_bucketRows _ _ _ (hbal _ _).1 (h x hx).1,
    map_stored_bucketRows _ _ _ (hbal _ _).2 (h x hx).2]

/-- Ledger lines, balances and rows of one settlement agree; `bal` are the balances before
it and `bal'` those after it. -/
structure LedgerAgrees (t : SettlementTerms) (bal bal' : Balances)
    (rows : List BalanceLedgerRow) : Prop where
  /-- There is one line for each of the four pairs of a user and an asset. -/
  lines : t.computeSettlementLedgerDeltasFromPayload.map (fun d => (d.userId, d.asset)) = t.pairs
  /-- It is the change of the balance. -/
  delta : ∀ d ∈ t.computeSettlementLedgerDeltasFromPayload,
    (bal' d.userId (t.market.assetToCurrency d.asset)).total -
      (bal d.userId (t.market.assetToCurrency d.asset)).total = d.delta
  /-- The rows add up to the change of each bucket. -/
  rows : ∀ pair ∈ t.pairs, ∀ k, rowsSum rows pair.1 (t.market.assetToCurrency pair.2) k =
    (bal' pair.1 (t.market.assetToCurrency pair.2)).get k -
      (bal pair.1 (t.market.assetToCurrency pair.2)).get k
  nonneg : ∀ pair ∈ t.pairs, ∀ k, 0 ≤ (bal' pair.1 (t.market.assetToCurrency pair.2)).get k

theorem SettlementTerms.ledgerAgrees (hmarket : t.market.Distinct)
    (husers : t.takerId ≠ t.makerId)
    (hnonneg : ∀ x ∈ t.updates bal, 0 ≤ x.available ∧ 0 ≤ x.locked) :
    LedgerAgrees t bal (applyUpdates bal (t.updates bal)) (t.balanceLedgerRows bal) where
  lines := t.map_pair_deltas
  delta d hd := by
    rw [total_updates hmarket husers bal 0, ledgerSum_entries hmarket husers 0 hd,
      add_sub_cancel_left]
  rows pair _ k := rowsSum_balanceLedgerRows hmarket husers _ _ k
  nonneg pair hpair k := by
    obtain ⟨x, hx, hkey⟩ := exists_update_of_mem_pairs bal hmarket hpair
    obtain ⟨huser, hcurrency⟩ := Prod.mk.inj hkey
    rw [← huser, ← hcurrency, applyUpdates_of_mem (updates_keys_nodup hmarket husers) hx]
    cases k with
    | available => exact (hnonneg x hx).1
    | locked => exact (hnonneg x hx).2

theorem settle_eq_ok {ctx : SettlementContext} {id : ℕ} {p : EnginePayload}
    {market : MarketAssets} {eff : SettlementEffect}
    (hmarket : resolveMarketAssets ctx p.symbol = .ok market) (h : settle ctx id p bal = .ok eff) :
    let t : SettlementTerms := ⟨p, market, ctx.rates, ctx.makerRebatesEnabled⟩
    t.takerId ≠ t.makerId ∧ eff.updates = t.updates bal ∧
      ∀ x ∈ t.updates bal, 0 ≤ x.available ∧ 0 ≤ x.locked := by
  simp only [settle, bind_eq_ok, refuseIf_eq_ok, exists_const, pure_eq_ok] at h
  obtain ⟨market', hmarket', -, -, husers, -, -, -, hnonneg, -, rfl⟩ := h
  obtain rfl : market = market' := Except.ok.inj (hmarket.symm.trans hmarket')
  refine ⟨husers, rfl, fun x hx => ?_⟩
  have hx' := not_exists.mp hnonneg x
  rw [not_and, not_or, not_lt, not_lt] at hx'
  exact hx' hx

/-- Ledger lines equal balance changes. For every payload, fee rates, rebate setting and
taker side for which the event is settled, with two different assets and precisions of at
most the scale of the columns, the change of available plus locked of each of the four
pairs is the delta computed from the payload, the rows of `balance_ledger` written for the
pair add up per bucket to the change of that bucket, and no bucket is negative. -/
theorem ledger_lines_equal_balance_changes (scale : ℕ) (ctx : SettlementContext)
    (ledger : List LedgerEntry) (id : ℕ) (p : EnginePayload) (bal : Balances)
    (market : MarketAssets) (eff : SettlementEffect) (hmarket : resolveMarketAssets ctx p.symbol =
    .ok market) (hdistinct : market.Distinct) (hnew : ∀ e ∈ ledger, e.settlementEventId ≠ id)
    (hok : processSettlementEventRow ctx ledger id p bal = .ok eff) (hqty : market.qtyPrecision ≤
    scale) (hquote : market.quotePrecision ≤ scale) (hbal : bal.Stored scale) :
    LedgerAgrees ⟨p, market, ctx.rates, ctx.makerRebatesEnabled⟩ bal (applyUpdates
    bal (eff.updates.map (BalanceUpdate.stored scale))) ((SettlementTerms.balanceLedgerRows ⟨p,
    market, ctx.rates, ctx.makerRebatesEnabled⟩ bal).map (BalanceLedgerRow.stored scale)) := by
  have hfresh : ¬ ∃ e ∈ ledger, e.settlementEventId = id := by
    rintro ⟨e, he, hid⟩
    exact hnew e he hid
  rw [processSettlementEventRow, if_neg hfresh] at hok
  obtain ⟨husers, hupdates, hnonneg⟩ := settle_eq_ok hmarket hok
  have hgrid := SettlementTerms.onGrid_updates
    (t := ⟨p, market, ctx.rates, ctx.makerRebatesEnabled⟩) hbal hqty hquote
  rw [hupdates, map_stored_updates hgrid, SettlementTerms.balanceLedgerRows_eq hdistinct,
    map_stored_rows hbal hgrid, ← SettlementTerms.balanceLedgerRows_eq hdistinct]
  exact SettlementTerms.ledgerAgrees hdistinct husers hnonneg

theorem sampleBalances_stored (scale : ℕ) : sampleBalances.Stored scale :=
  fun _ _ => ⟨⟨1000 * 10 ^ scale, by simp [sampleBalances]⟩,
    ⟨1000 * 10 ^ scale, by simp [sampleBalances]⟩⟩

/-- The rows of the quote balance of a seller say what it has received. -/
theorem sampleSell_ledger_agrees : rowsSum ((SettlementTerms.balanceLedgerRows ⟨samplePayload .sell,
    sampleAssets, feeRates, true⟩ sampleBalances).map (BalanceLedgerRow.stored 18)) 1 2 .available =
    (applyUpdates sampleBalances ((sampleEffect true .sell 7).updates.map (BalanceUpdate.stored 18))
    1 2).get .available - 1000 :=
  (ledger_lines_equal_balance_changes 18 (sampleContext true) [] 7 (samplePayload .sell)
    sampleBalances sampleAssets (sampleEffect true .sell 7) (by decide +kernel) (by decide)
    (by decide) (by decide +kernel) (by decide) (by decide) (sampleBalances_stored 18)).rows
      (1, "USDT") (by decide) .available

def fineContext : SettlementContext :=
  { sampleContext false with markets := [{ sampleMarket with qtyPrecision := some 20 }] }

/-- A buy of `1 + 10 ^ -20` there. -/
def fineTerms : SettlementTerms :=
  { payload := { samplePayload .buy with qty := 1 + 1 / 10 ^ 20 }
    market := { sampleAssets with qtyPrecision := 20 }
    rates := feeRates
    makerRebatesEnabled := false }

/-- In columns with 18 places the buyer gets 1, and the ledger line has `1 + 10 ^ -20`. And
where an event has ledger lines already, its lines are computed and nothing changes. -/
theorem finePrecision_rounded :
    processSettlementEventRow fineContext [] 7 fineTerms.payload sampleBalances =
        .ok ⟨fineTerms.entries 7, fineTerms.updates sampleBalances, [fineTerms.trade]⟩ ∧
      ⟨1, "BTC", 1 + 1 / 10 ^ 20⟩ ∈ fineTerms.computeSettlementLedgerDeltasFromPayload ∧
      (applyUpdates sampleBalances
          ((fineTerms.updates sampleBalances).map (BalanceUpdate.stored 18)) 1 1).total -
        (sampleBalances 1 1).total = 1 ∧
      processSettlementEventRow fineContext (fineTerms.entries 7) 7 fineTerms.payload
        sampleBalances = .ok ⟨[], [], []⟩ := by
  decide +kernel

end MetherCEX
