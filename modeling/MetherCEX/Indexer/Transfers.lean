import MetherCEX.Lib.UniqueTable
import MetherCEX.Wallet.Ledger

/-!
# The deposits of a block

`ChainIndexer` records the transfers of a block to watched addresses. The unique key of `deposits`
makes it safe to scan a block twice, and keeps one of the transfers with which a transaction pays
an address.
-/

namespace MetherCEX

open UniqueTable List

/-- A transaction with a value, or a `Transfer` log. -/
structure Transfer where
  txHash : String
  /-- The creation of a contract has no recipient, nor has a log with fewer than three topics. -/
  toAddress : Option String
  /-- The contract of the token; the native coin has none. -/
  tokenAddress : Option String
  value : ℕ

/-- A row of `deposits`. -/
structure DepositRecord where
  userId : UserId
  currencyId : CurrencyId
  chainId : ChainId
  txHash : String
  toAddress : String
  amount : ℚ
  deriving DecidableEq

namespace DepositRecord

def key (d : DepositRecord) : ChainId × String × String := (d.chainId, d.txHash, d.toAddress)

def amountFor (address : String) (currencyId : CurrencyId) (d : DepositRecord) : ℚ :=
  if d.toAddress = address ∧ d.currencyId = currencyId then d.amount else 0

end DepositRecord

/-- The settings of an indexer, and what the contracts and the other tables answer. -/
structure ChainIndexer where
  chainKey : ChainId
  symbol : String
  nativeDecimals : ℕ
  watchedAddresses : String → Bool
  tokenInfo : String → Option (String × ℕ)
  walletUser : String → Option UserId
  currencyByContract : String → Option CurrencyId
  currencyBySymbol : String → Option CurrencyId

namespace ChainIndexer

variable {ix : ChainIndexer} {t : Transfer} {d : DepositRecord} {address : String}
  {currencyId : CurrencyId}

def unitOf (ix : ChainIndexer) (t : Transfer) : Option (String × ℕ) :=
  match t.tokenAddress with
  | none => some (ix.symbol, ix.nativeDecimals)
  | some token => ix.tokenInfo token

def currencyOf (ix : ChainIndexer) (t : Transfer) : Option CurrencyId := do
  let (symbol, _) ← ix.unitOf t
  (t.tokenAddress.bind ix.currencyByContract).or (ix.currencyBySymbol symbol.toUpper)

/-- `formatUnits`. -/
def amountOf (ix : ChainIndexer) (t : Transfer) : ℚ :=
  match ix.unitOf t with
  | none => 0
  | some (_, decimals) => t.value / 10 ^ decimals

/-- The row that `recordDeposit` inserts for a transfer. -/
def recordOf (ix : ChainIndexer) (t : Transfer) : Option DepositRecord := do
  let toAddress ← t.toAddress
  guard (ix.watchedAddresses toAddress)
  guard (0 < ix.amountOf t)
  let userId ← ix.walletUser toAddress
  let currencyId ← ix.currencyOf t
  pure ⟨userId, currencyId, ix.chainKey, t.txHash, toAddress, ix.amountOf t⟩

/-- The transfers of a block are recorded one after the other: `processNativeTransfers`, then
`processTokenTransfers`. -/
def scan (ix : ChainIndexer) (rows : List DepositRecord) (ts : List Transfer) :
    List DepositRecord :=
  insertAll DepositRecord.key rows (ts.filterMap ix.recordOf)

def recorded (rows : List DepositRecord) (address : String) (currencyId : CurrencyId) : ℚ :=
  (rows.map (DepositRecord.amountFor address currencyId)).sum

def amountFor (ix : ChainIndexer) (address : String) (currencyId : CurrencyId) (t : Transfer) : ℚ :=
  if t.toAddress = some address ∧ ix.currencyOf t = some currencyId then ix.amountOf t else 0

def transferred (ix : ChainIndexer) (ts : List Transfer) (address : String)
    (currencyId : CurrencyId) : ℚ :=
  (ts.map (ix.amountFor address currencyId)).sum

def Known (ix : ChainIndexer) (address : String) : Prop :=
  ix.watchedAddresses address = true ∧ (ix.walletUser address).isSome

/-- The transfers are recorded with their amounts, and neither a second scan nor another order
makes a difference. -/
structure AddsUp (ix : ChainIndexer) (rows : List DepositRecord) (ts : List Transfer) : Prop where
  sums : ∀ address currencyId, ix.Known address →
    recorded (ix.scan rows ts) address currencyId =
      recorded rows address currencyId + ix.transferred ts address currencyId
  again : ∀ ts', ts' ~ ts → ix.scan (ix.scan rows ts) ts' = ix.scan rows ts
  order : ∀ ts', ts' ~ ts → ix.scan rows ts' ~ ix.scan rows ts

theorem amountOf_nonneg (ix : ChainIndexer) (t : Transfer) : 0 ≤ ix.amountOf t := by
  unfold amountOf
  split <;> positivity

theorem recordOf_eq_some (h : ix.recordOf t = some d) :
    t.toAddress = some d.toAddress ∧ ix.Known d.toAddress ∧ 0 < d.amount ∧
      ix.currencyOf t = some d.currencyId ∧ d.amount = ix.amountOf t ∧ d.txHash = t.txHash := by
  simp only [recordOf, guard, Option.bind_eq_bind, Option.bind_eq_some_iff, ite_eq_iff,
    reduceCtorEq, and_false, or_false, Option.pure_def, Option.some.injEq] at h
  obtain ⟨address, hto, -, ⟨hwatched, -⟩, -, ⟨hpos, -⟩, userId, huser, currencyId, hcurrency,
    rfl⟩ := h
  exact ⟨hto, ⟨hwatched, by rw [huser]; rfl⟩, hpos, hcurrency, rfl, rfl⟩

/-- A transfer of something to a known address is recorded. -/
theorem exists_recordOf (hto : t.toAddress = some address) (h : ix.Known address)
    (hcurrency : ix.currencyOf t = some currencyId) (hpos : 0 < ix.amountOf t) :
    ∃ d, ix.recordOf t = some d := by
  obtain ⟨userId, huser⟩ := Option.isSome_iff_exists.mp h.2
  exact ⟨⟨userId, currencyId, ix.chainKey, t.txHash, address, ix.amountOf t⟩,
    by simp [recordOf, hto, h.1, hpos, huser, hcurrency]⟩

theorem transferred_eq (h : ix.Known address) (ts : List Transfer) : ix.transferred
    ts address currencyId = recorded (ts.filterMap ix.recordOf) address currencyId := by
  unfold transferred recorded
  induction ts with
  | nil => rfl
  | cons t ts ih =>
    rw [map_cons, sum_cons, ih]
    cases hrecord : ix.recordOf t with
    | none =>
      -- nothing is recorded for a transfer to the address only if it is a transfer of nothing
      have hzero : ix.amountFor address currencyId t = 0 := by
        refine ite_eq_right_iff.mpr fun ⟨hto, hcurrency⟩ => ?_
        by_contra hne
        obtain ⟨d, hd⟩ := exists_recordOf hto h hcurrency
          (lt_of_le_of_ne (ix.amountOf_nonneg t) (Ne.symm hne))
        exact absurd (hrecord.symm.trans hd) nofun
      rw [filterMap_cons_none hrecord, hzero, zero_add]
    | some d =>
      obtain ⟨hto, -, -, hcurrency, hamount, -⟩ := recordOf_eq_some hrecord
      rw [filterMap_cons_some hrecord, map_cons, sum_cons]
      simp only [amountFor, DepositRecord.amountFor, hto, hcurrency, hamount, Option.some.injEq]

theorem scan_again (rows : List DepositRecord) {ts ts' : List Transfer} (h : ts' ~ ts) :
    ix.scan (ix.scan rows ts) ts' = ix.scan rows ts :=
  insertAll_of_mem fun _ hd => key_mem_insertAll ((h.filterMap _).mem_iff.mp hd)

/-- A chain with one watched address and one token of six decimals. -/
def oneToken : ChainIndexer :=
  ⟨"ethereum", "ETH", 18, (· = "0xa"), fun _ => some ("USDT", 6), fun _ => some 7,
    fun _ => some 2, fun _ => some 1⟩

/-- A payment of a million units of the token in the transaction `txHash`. -/
def tokenPayment (txHash : String) : Transfer := ⟨txHash, some "0xa", some "0xt", 1000000⟩

end ChainIndexer

end MetherCEX
