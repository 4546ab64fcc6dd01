import Mathlib.Data.Prod.Lex
import Mathlib.Data.String.Basic
import MetherCEX.Lib.Canonical
import MetherCEX.Settlement.Value

/-!
# The hash of a settled event and its replay

A settlement stores a hash of its event: of the payload with its fields in order, the trade value,
the two fees and the ledger lines. The same hash is computed again in two places.
-/

namespace MetherCEX

open Checks Decimal Canonical List

/-- A value in the JSON object of a payload; nested values and booleans are `other`. -/
inductive PayloadValue
  | null
  | num (x : ℚ)
  | str (s : String)
  | other (n : ℕ)
  deriving DecidableEq

abbrev PayloadObject := List (String × PayloadValue)

/-- The functions on texts that the code calls: those of strings and numbers of the language, of
decimals and of ids. -/
structure JsText where
  trim : String → String
  toLowerCase : String → String
  number : Option PayloadValue → PayloadValue
  decimal : String → ℚ
  uuid : String → ℕ
  toNumeric : ℚ → String
  localeCompare : String → String → Ordering

structure PayloadTexts where
  symbol : String
  price : String
  qty : String
  takerOrderId : String
  makerOrderId : String
  takerUserId : String
  makerUserId : String
  deriving DecidableEq

def PayloadTexts.read (js : JsText) (p : PayloadTexts) (side : Side) : EnginePayload :=
  { symbol := p.symbol
    price := js.decimal p.price
    qty := js.decimal p.qty
    takerOrderId := js.uuid p.takerOrderId
    makerOrderId := js.uuid p.makerOrderId
    takerUserId := js.uuid p.takerUserId
    makerUserId := js.uuid p.makerUserId
    takerSide := side }

structure NormalPayload where
  eventId : PayloadValue
  matchEngineId : Option String
  texts : PayloadTexts
  takerSide : Side
  timestamp : PayloadValue
  deriving DecidableEq

namespace PayloadObject

variable (js : JsText) (o : PayloadObject)

def str? (k : String) : Option String :=
  match get? o k with
  | some (.str s) => some s
  | _ => none

def number (k : String) : PayloadValue :=
  match get? o k with
  | some (.num x) => .num x
  | v => js.number v

def texts? : Option PayloadTexts := do
  let symbol ← str? o "symbol"
  let price ← str? o "price"
  let qty ← str? o "qty"
  let takerOrderId ← str? o "taker_order_id"
  let makerOrderId ← str? o "maker_order_id"
  let takerUserId ← str? o "taker_user_id"
  let makerUserId ← str? o "maker_user_id"
  pure ⟨symbol, price, qty, takerOrderId, makerOrderId, takerUserId, makerUserId⟩

def side? : Option Side :=
  match (str? o "taker_side").map fun s => js.toLowerCase (js.trim s) with
  | some "buy" => some .buy
  | some "sell" => some .sell
  | _ => none

def rawSide : Side := if str? o "taker_side" = some "buy" then .buy else .sell

def matchEngineId : Option String :=
  ((str? o "match_engine_id").map js.trim).filter fun s => s ≠ ""

end PayloadObject

def normalizeSettlementPayload (js : JsText) (o : PayloadObject) :
    Except SettlementError NormalPayload := do
  let texts ← orRefuse (PayloadObject.texts? o) .settlementPayload
  let takerSide ← orRefuse (PayloadObject.side? js o) .settlementPayload
  pure
    { eventId := PayloadObject.number js o "event_id"
      matchEngineId := PayloadObject.matchEngineId js o
      texts := texts
      takerSide := takerSide
      timestamp := PayloadObject.number js o "timestamp" }

def sideText : Side → String
  | .buy => "buy"
  | .sell => "sell"

/-- The object that is hashed; an absent engine id is printed as `null`. -/
def NormalPayload.toObject (p : NormalPayload) : PayloadObject :=
  [("event_id", p.eventId),
   ("match_engine_id", (p.matchEngineId.map PayloadValue.str).getD .null),
   ("symbol", .str p.texts.symbol),
   ("price", .str p.texts.price),
   ("qty", .str p.texts.qty),
   ("taker_order_id", .str p.texts.takerOrderId),
   ("maker_order_id", .str p.texts.makerOrderId),
   ("taker_user_id", .str p.texts.takerUserId),
   ("maker_user_id", .str p.texts.makerUserId),
   ("taker_side", .str (sideText p.takerSide)),
   ("timestamp", p.timestamp)]

theorem NormalPayload.keys_nodup (p : NormalPayload) : (p.toObject.map Prod.fst).Nodup := by
  simp [toObject]

def JsText.line (js : JsText) (d : LedgerDelta) : UserId ×ₗ String :=
  toLex (d.userId, d.asset ++ "|" ++ js.toNumeric d.delta)

def JsText.ByLocale (js : JsText) (d d' : LedgerDelta) : Prop :=
  if d.userId = d'.userId then js.localeCompare d.asset d'.asset ≠ .gt
  else d.userId ≤ d'.userId

instance (js : JsText) : DecidableRel js.ByLocale := fun d d' => by
  unfold JsText.ByLocale
  infer_instance

def JsText.ledgerLines (js : JsText) (ds : List LedgerDelta) : List (UserId ×ₗ String) :=
  (ds.insertionSort js.ByLocale).map js.line

def JsText.sortedLines (js : JsText) (ds : List LedgerDelta) : List (UserId ×ₗ String) :=
  (ds.map js.line).insertionSort (· ≤ ·)

/-- What is hashed. A decimal and its text determine each other. -/
structure EventHashInput where
  payload : List (String × Option PayloadValue)
  tradeVal : ℚ
  takerFee : ℚ
  makerFee : ℚ
  ledgerLines : List (UserId ×ₗ String)
  deriving DecidableEq

namespace SettlementTerms

variable (js : JsText) (p : NormalPayload) (t : SettlementTerms)

def makerFeeForHash : ℚ := if t.makerRebatesEnabled then -t.makerFeeAmt else t.makerFeeAmt

def hashInput : EventHashInput :=
  { payload := canonical p.toObject
    tradeVal := t.tradeVal
    takerFee := t.takerFeeAmt
    makerFee := t.makerFeeForHash
    ledgerLines := js.ledgerLines t.computeSettlementLedgerDeltasFromPayload }

/-- What the crash-replay path hashes; `ledger` is the table. -/
def crashHashInput (ledger : List LedgerEntry) (id : ℕ) : EventHashInput :=
  { payload := canonical p.toObject
    tradeVal := t.tradeVal
    takerFee := t.takerFeeAmt
    makerFee := t.makerFeeForHash
    ledgerLines := js.sortedLines
      ((ledger.filter fun e => e.settlementEventId = id).map fun e =>
        ⟨e.userId, e.asset, e.delta⟩) }

end SettlementTerms

structure ReplayMarket where
  base : String
  quote : String
  pricePrecision : ℕ
  qtyPrecision : ℕ
  quotePrecision : ℕ
  deriving DecidableEq

/-- The view takes the precision of the price where the market has no quote currency. -/
def replayMarket (ctx : SettlementContext) (row : MarketRow) : ReplayMarket :=
  { base := row.baseAsset
    quote := row.quoteAsset
    pricePrecision := row.pricePrecision.getD 8
    qtyPrecision := row.qtyPrecision.getD 8
    quotePrecision := (row.quoteCurrencyId.bind ctx.decimals <|> row.pricePrecision).getD 8 }

/-- `resolveMarketAssets` of the validator. -/
def resolveReplayMarket (ctx : SettlementContext) (symbol : Market) :
    Except SettlementError ReplayMarket := do
  let row ← orRefuse (ctx.markets.find? (fun m => m.symbol = symbol)) .marketNotFound
  pure (replayMarket ctx row)

structure ReplayTerms where
  payload : EnginePayload
  market : ReplayMarket
  rates : FeeRates
  deriving DecidableEq

namespace ReplayTerms

variable (t : ReplayTerms)

def roundQuote (x : ℚ) : ℚ := roundDown t.market.quotePrecision x

def qty : ℚ := roundDown t.market.qtyPrecision t.payload.qty

def tradeVal : ℚ := t.roundQuote (tradeValue t.payload.price t.payload.qty)

def takerFeeAmt : ℚ := t.roundQuote (takerFee t.rates t.tradeVal)

def makerFeeAmt : ℚ := t.roundQuote (makerFee t.rates t.tradeVal)

def makerQuoteNetCredit : ℚ := t.roundQuote (t.tradeVal - t.makerFeeAmt)

def takerQuoteNetCredit : ℚ := t.roundQuote (t.tradeVal - t.takerFeeAmt)

def ledgerDeltas : List LedgerDelta :=
  match t.payload.takerSide with
  | .buy =>
    [⟨t.payload.takerUserId, t.market.base, t.qty⟩,
     ⟨t.payload.takerUserId, t.market.quote, -t.tradeVal - t.takerFeeAmt⟩,
     ⟨t.payload.makerUserId, t.market.base, -t.qty⟩,
     ⟨t.payload.makerUserId, t.market.quote, t.makerQuoteNetCredit⟩]
  | .sell =>
    [⟨t.payload.takerUserId, t.market.base, -t.qty⟩,
     ⟨t.payload.takerUserId, t.market.quote, t.takerQuoteNetCredit⟩,
     ⟨t.payload.makerUserId, t.market.base, t.qty⟩,
     ⟨t.payload.makerUserId, t.market.quote, -t.tradeVal - t.makerFeeAmt⟩]

def hashInput (js : JsText) (o : PayloadObject) : EventHashInput :=
  { payload := canonical o
    tradeVal := t.tradeVal
    takerFee := t.takerFeeAmt
    makerFee := t.makerFeeAmt
    ledgerLines := js.ledgerLines t.ledgerDeltas }

end ReplayTerms

def resolveReplayTerms (js : JsText) (ctx : SettlementContext) (o : PayloadObject) :
    Except SettlementError ReplayTerms := do
  let texts ← orRefuse (PayloadObject.texts? o) .settlementPayload
  let market ← resolveReplayMarket ctx texts.symbol
  pure ⟨texts.read js (PayloadObject.rawSide o), market, ctx.rates⟩

/-- A row of `settlement_events` that is processed and has a hash. -/
structure HashedEvent (H : Type) where
  payload : PayloadObject
  hash : H

section Check

variable {H : Type} [DecidableEq H] (js : JsText) (ctx : SettlementContext)
  (digest : EventHashInput → H)

def replaySettlementIntegrityCheck (rows : List (HashedEvent H)) : Except SettlementError ℕ :=
  rows.foldlM
    (fun mismatches row => do
      let t ← resolveReplayTerms js ctx row.payload
      pure (if digest (t.hashInput js row.payload) ≠ row.hash then mismatches + 1
        else mismatches))
    0

variable {js ctx digest}

/-- Where the terms of every row can be computed, the check counts the rows whose hash is
another one. -/
theorem replaySettlementIntegrityCheck_eq {α : Type} (row : α → HashedEvent H) (terms : α →
    ReplayTerms) {xs : List α} (h : ∀ x ∈ xs, resolveReplayTerms js ctx (row x).payload =
    .ok (terms x)) : replaySettlementIntegrityCheck js ctx digest (xs.map row) =
    .ok (xs.countP fun x => digest ((terms x).hashInput js (row x).payload) ≠ (row x).hash) := by
  suffices hacc : ∀ n, (xs.map row).foldlM
      (fun mismatches r => do
        let t ← resolveReplayTerms js ctx r.payload
        pure (if digest (t.hashInput js r.payload) ≠ r.hash then mismatches + 1
          else mismatches)) n =
      (.ok (n + xs.countP fun x =>
        digest ((terms x).hashInput js (row x).payload) ≠ (row x).hash) :
        Except SettlementError ℕ) by
    have hzero := hacc 0
    rwa [Nat.zero_add] at hzero
  induction xs with
  | nil => exact fun n => rfl
  | cons x xs ih =>
    intro n
    have hx := h x mem_cons_self
    rw [map_cons, foldlM_cons, hx, countP_cons]
    refine (ih (fun y hy => h y (mem_cons_of_mem x hy)) _).trans ?_
    by_cases hhash : digest ((terms x).hashInput js (row x).payload) = (row x).hash
    · simp [hhash]
    · simp [hhash]
      omega

end Check

namespace JsText

variable (js : JsText)

/-- Of the two lines of a user, the one whose asset comes first by name is not after the
other as a text. -/
def InLineOrder (d d' : LedgerDelta) : Prop :=
  if js.localeCompare d.asset d'.asset = .gt then js.line d' ≤ js.line d
  else js.line d ≤ js.line d'
  deriving Decidable

def userOrder (d d' : LedgerDelta) : List LedgerDelta :=
  if js.localeCompare d.asset d'.asset = .gt then [d', d] else [d, d']

variable {js} {a b c d : LedgerDelta}

theorem userId_of_mem_userOrder (hab : a.userId = b.userId) {x : LedgerDelta}
    (hx : x ∈ js.userOrder a b) : x.userId = a.userId := by
  have hmem : x = a ∨ x = b := by
    rw [userOrder] at hx
    split_ifs at hx
    · exact (mem_pair.mp hx).symm
    · exact mem_pair.mp hx
  rcases hmem with rfl | rfl
  · rfl
  · exact hab.symm

theorem pairwise_userOrder :
    ((js.userOrder a b).map js.line).Pairwise (· ≤ ·) ↔ js.InLineOrder a b := by
  rw [userOrder, InLineOrder]
  split_ifs
  · simp
  · simp

theorem byLocale_of_lt (h : a.userId < b.userId) : js.ByLocale a b := by
  rw [ByLocale, if_neg h.ne]
  exact h.le

theorem not_byLocale_of_gt (h : b.userId < a.userId) : ¬ js.ByLocale a b := by
  rw [ByLocale, if_neg h.ne']
  exact h.not_ge

theorem byLocale_iff (h : a.userId = b.userId) :
    js.ByLocale a b ↔ js.localeCompare a.asset b.asset ≠ .gt := by
  rw [ByLocale, if_pos h]

theorem insertionSort_pair (h : a.userId = b.userId) :
    [a, b].insertionSort js.ByLocale = js.userOrder a b := by
  by_cases hgt : js.localeCompare a.asset b.asset = .gt
  · simp [userOrder, byLocale_iff h, hgt]
  · simp [userOrder, byLocale_iff h, hgt]

theorem insertionSort_lines (hab : a.userId = b.userId) (hcd : c.userId = d.userId)
    (hne : a.userId ≠ c.userId) : [a, b, c, d].insertionSort js.ByLocale = if a.userId < c.userId
    then js.userOrder a b ++ js.userOrder c d else js.userOrder c d ++ js.userOrder a b := by
  obtain ⟨x, y, hxy, hx, hy⟩ : ∃ x y, js.userOrder c d = [x, y] ∧ x.userId = c.userId ∧
      y.userId = c.userId := by
    rw [userOrder]
    split_ifs
    · exact ⟨d, c, rfl, hcd.symm, rfl⟩
    · exact ⟨c, d, rfl, rfl, hcd.symm⟩
  rw [List.insertionSort_cons, List.insertionSort_cons, insertionSort_pair hcd, hxy, userOrder]
  rcases lt_or_gt_of_ne hne with hlt | hgt
  · have hax : js.ByLocale a x := byLocale_of_lt (hlt.trans_eq hx.symm)
    have hbx : js.ByLocale b x := byLocale_of_lt ((hab.symm.trans_lt hlt).trans_eq hx.symm)
    rw [if_pos hlt]
    by_cases hloc : js.localeCompare a.asset b.asset = .gt
    · simp [hbx, hax, byLocale_iff hab, hloc]
    · simp [hbx, byLocale_iff hab, hloc]
  · have hnot : ∀ {z w : LedgerDelta}, z.userId = a.userId → w.userId = c.userId →
        ¬ js.ByLocale z w := fun hz hw =>
      not_byLocale_of_gt ((hw.trans_lt hgt).trans_eq hz.symm)
    rw [if_neg hgt.not_gt]
    by_cases hloc : js.localeCompare a.asset b.asset = .gt
    · simp [hnot hab.symm hx, hnot hab.symm hy, hnot rfl hx, hnot rfl hy, byLocale_iff hab, hloc]
    · simp [hnot hab.symm hx, hnot hab.symm hy, hnot rfl hx, hnot rfl hy, byLocale_iff hab, hloc]

theorem line_lt_of_userId_lt (h : a.userId < b.userId) : js.line a < js.line b :=
  Prod.Lex.toLex_lt_toLex.mpr (.inl h)

theorem pairwise_two_users (hab : a.userId = b.userId) (hcd : c.userId = d.userId)
    (hlt : a.userId < c.userId) : ((js.userOrder a b ++ js.userOrder c d).map js.line).Pairwise
    (· ≤ ·) ↔ js.InLineOrder a b ∧ js.InLineOrder c d := by
  rw [map_append, pairwise_append, pairwise_userOrder, pairwise_userOrder]
  refine ⟨fun h => ⟨h.1, h.2.1⟩, fun h => ⟨h.1, h.2, ?_⟩⟩
  intro x hx y hy
  obtain ⟨z, hz, rfl⟩ := mem_map.mp hx
  obtain ⟨w, hw, rfl⟩ := mem_map.mp hy
  refine (line_lt_of_userId_lt ?_).le
  rwa [userId_of_mem_userOrder hab hz, userId_of_mem_userOrder hcd hw]

theorem ledgerLines_eq_sortedLines_iff (hab : a.userId = b.userId) (hcd : c.userId = d.userId)
    (hne : a.userId ≠ c.userId) : js.ledgerLines [a, b, c, d] = js.sortedLines [a, b, c, d] ↔
    js.InLineOrder a b ∧ js.InLineOrder c d := by
  have hperm : (js.ledgerLines [a, b, c, d]).Perm ([a, b, c, d].map js.line) :=
    (perm_insertionSort _ _).map _
  rw [sortedLines, eq_insertionSort_iff hperm, ledgerLines, insertionSort_lines hab hcd hne]
  rcases lt_or_gt_of_ne hne with hlt | hgt
  · rw [if_pos hlt, pairwise_two_users hab hcd hlt]
  · rw [if_neg hgt.not_gt, pairwise_two_users hcd hab hgt, and_comm]

end JsText

/-- An event that was applied, and whose rows have not changed since. -/
structure AppliedEvent (js : JsText) (ctx : SettlementContext) where
  id : ℕ
  raw : PayloadObject
  payload : NormalPayload
  row : MarketRow
  market : MarketAssets
  bal : Balances
  effect : SettlementEffect
  ledger : List LedgerEntry
  keys_nodup : (raw.map Prod.fst).Nodup
  normal : normalizeSettlementPayload js raw = .ok payload
  found : ctx.markets.find? (fun m => m.symbol = payload.texts.symbol) = some row
  resolved : resolveMarketAssets ctx payload.texts.symbol = .ok market
  applied : settle ctx id (payload.texts.read js payload.takerSide) bal = .ok effect
  unchanged : ledger.filter (fun e => e.settlementEventId = id) = effect.entries

def SettlementTerms.userLines (t : SettlementTerms) : List (LedgerDelta × LedgerDelta) :=
  match t.computeSettlementLedgerDeltasFromPayload with
  | [a, b, c, d] => [(a, b), (c, d)]
  | _ => []

namespace AppliedEvent

variable {js : JsText} {ctx : SettlementContext} {H : Type} (e : AppliedEvent js ctx)

def terms : SettlementTerms :=
  ⟨e.payload.texts.read js e.payload.takerSide, e.market, ctx.rates, ctx.makerRebatesEnabled⟩

def replayTerms : ReplayTerms :=
  ⟨e.payload.texts.read js (PayloadObject.rawSide e.raw), replayMarket ctx e.row, ctx.rates⟩

def stored (digest : EventHashInput → H) : HashedEvent H :=
  ⟨e.raw, digest (e.terms.hashInput js e.payload)⟩

def crashHashInput : EventHashInput :=
  e.terms.crashHashInput js e.payload e.ledger e.id

structure Replayable : Prop where
  /-- The stored payload has the fields that `normalizeSettlementPayload` returns. -/
  normal : e.raw.Perm e.payload.toObject
  no_rebate : ctx.makerRebatesEnabled = false ∨ e.terms.makerFeeAmt = 0
  /-- The amounts are the same with the precision of the view. -/
  tradeVal : e.replayTerms.tradeVal = e.terms.tradeVal
  takerFee : e.replayTerms.takerFeeAmt = e.terms.takerFeeAmt
  makerFee : e.replayTerms.makerFeeAmt = e.terms.makerFeeAmt
  /-- The lines of each user have one order by name and as texts. -/
  order : ∀ x ∈ e.terms.userLines, js.InLineOrder x.1 x.2

theorem settles : Settles ctx e.id e.terms e.bal e.effect := by
  obtain ⟨⟨payload, market, rates, rebates⟩, hpayload, ht⟩ := settles_of_settle e.applied
  obtain rfl : payload = e.payload.texts.read js e.payload.takerSide := hpayload
  obtain rfl : market = e.market := Except.ok.inj (ht.market.symm.trans e.resolved)
  obtain rfl : rates = ctx.rates := ht.rates
  obtain rfl : rebates = ctx.makerRebatesEnabled := ht.rebates
  exact ht

theorem texts_raw : PayloadObject.texts? e.raw = some e.payload.texts := by
  have hnormal := e.normal
  simp only [normalizeSettlementPayload, orRefuse_bind_eq_ok, pure_eq_ok] at hnormal
  obtain ⟨texts, htexts, side, -, hpayload⟩ := hnormal
  rw [htexts, ← hpayload]

theorem resolveReplayTerms_raw : resolveReplayTerms js ctx e.raw = .ok e.replayTerms := by
  have hmarket : resolveReplayMarket ctx e.payload.texts.symbol = .ok (replayMarket ctx e.row) := by
    rw [resolveReplayMarket, e.found]
    rfl
  rw [resolveReplayTerms, e.texts_raw]
  exact bind_eq_ok.mpr ⟨_, rfl, bind_eq_ok.mpr ⟨_, hmarket, rfl⟩⟩

theorem replayMarket_eq : (replayMarket ctx e.row).base = e.market.base ∧
    (replayMarket ctx e.row).quote = e.market.quote ∧
    (replayMarket ctx e.row).qtyPrecision = e.market.qtyPrecision := by
  have hresolved := e.resolved
  simp only [resolveMarketAssets, e.found, orRefuse_bind_eq_ok, pure_eq_ok] at hresolved
  obtain ⟨row, hrow, base, -, quote, -, hmarket⟩ := hresolved
  obtain rfl := Option.some.inj hrow
  rw [← hmarket]
  exact ⟨rfl, rfl, rfl⟩

theorem map_entries (t : SettlementTerms) (id : ℕ) : (t.entries id).map (fun x => (⟨x.userId,
    x.asset, x.delta⟩ : LedgerDelta)) = t.computeSettlementLedgerDeltasFromPayload := by
  rw [SettlementTerms.entries, map_map]
  exact map_id _

theorem exists_lines (t : SettlementTerms) :
    ∃ a b c d, t.computeSettlementLedgerDeltasFromPayload = [a, b, c, d] ∧
    a.userId = t.takerId ∧ b.userId = t.takerId ∧ c.userId = t.makerId ∧ d.userId = t.makerId := by
  cases hside : t.payload.takerSide with
  | buy | sell => simp [SettlementTerms.computeSettlementLedgerDeltasFromPayload, hside]

theorem crashHashInput_eq_iff : e.crashHashInput = e.terms.hashInput js e.payload ↔
    ∀ x ∈ e.terms.userLines, js.InLineOrder x.1 x.2 := by
  have hlines : e.crashHashInput = e.terms.hashInput js e.payload ↔
      js.ledgerLines e.terms.computeSettlementLedgerDeltasFromPayload =
        js.sortedLines e.terms.computeSettlementLedgerDeltasFromPayload := by
    have hentries : e.effect.entries = e.terms.entries e.id := by rw [e.settles.effect]
    rw [crashHashInput, SettlementTerms.crashHashInput, e.unchanged, hentries, map_entries,
      SettlementTerms.hashInput]
    simp [eq_comm]
  obtain ⟨a, b, c, d, hdeltas, ha, hb, hc, hd⟩ := exists_lines e.terms
  have husers : a.userId ≠ c.userId := by
    rw [ha, hc]
    exact e.settles.users
  rw [hlines, SettlementTerms.userLines, hdeltas,
    JsText.ledgerLines_eq_sortedLines_iff (ha.trans hb.symm) (hc.trans hd.symm) husers]
  simp

theorem makerFee_of_eq (htradeVal : e.replayTerms.tradeVal = e.terms.tradeVal)
    (h : e.replayTerms.makerFeeAmt = e.terms.makerFeeForHash) : (ctx.makerRebatesEnabled = false ∨
    e.terms.makerFeeAmt = 0) ∧ e.replayTerms.makerFeeAmt = e.terms.makerFeeAmt := by
  have hrebates : e.terms.makerRebatesEnabled = ctx.makerRebatesEnabled := rfl
  rw [SettlementTerms.makerFeeForHash, hrebates] at h
  cases hctx : ctx.makerRebatesEnabled with
  | false =>
    rw [hctx, if_neg Bool.false_ne_true] at h
    exact ⟨.inl rfl, h⟩
  | true =>
    rw [hctx, if_pos rfl] at h
    have hzero : e.terms.makerFeeAmt = 0 := by
      rw [ReplayTerms.makerFeeAmt, htradeVal] at h
      exact roundDown_eq_zero_of_eq_neg h
    rw [hzero, neg_zero] at h
    exact ⟨.inr hzero, h.trans hzero.symm⟩

theorem Replayable.makerFeeForHash (h : e.Replayable) :
    e.replayTerms.makerFeeAmt = e.terms.makerFeeForHash := by
  rw [h.makerFee, SettlementTerms.makerFeeForHash]
  rcases h.no_rebate with hoff | hzero
  · rw [if_neg]
    exact ne_true_of_eq_false hoff
  · rw [hzero, neg_zero, ite_self]

theorem roundQuote_eq {x : ℚ} (hx : OnGrid (replayMarket ctx e.row).quotePrecision x)
    (hx' : OnGrid e.market.quotePrecision x) : e.replayTerms.roundQuote x = e.terms.roundQuote x :=
  hx.roundDown_eq.trans hx'.roundDown_eq.symm

theorem rawSide_eq (h : e.raw.Perm e.payload.toObject) :
    PayloadObject.rawSide e.raw = e.payload.takerSide := by
  have hfield : ("taker_side", PayloadValue.str (sideText e.payload.takerSide)) ∈ e.raw :=
    h.mem_iff.mpr (by simp [NormalPayload.toObject])
  have hstr : PayloadObject.str? e.raw "taker_side" = some (sideText e.payload.takerSide) := by
    rw [PayloadObject.str?, get?_of_mem e.keys_nodup hfield]
  rw [PayloadObject.rawSide, hstr]
  cases e.payload.takerSide with
  | buy => rfl
  | sell => decide

theorem Replayable.ledgerDeltas_eq (h : e.Replayable) :
    e.replayTerms.ledgerDeltas = e.terms.computeSettlementLedgerDeltasFromPayload := by
  obtain ⟨hbase, hquote, hprecision⟩ := e.replayMarket_eq
  have hside := e.rawSide_eq h.normal
  have hgrid : OnGrid (replayMarket ctx e.row).quotePrecision e.terms.tradeVal := by
    rw [← h.tradeVal]
    exact onGrid_roundDown _ _
  have hgridTaker : OnGrid (replayMarket ctx e.row).quotePrecision e.terms.takerFeeAmt := by
    rw [← h.takerFee]
    exact onGrid_roundDown _ _
  have hgridMaker : OnGrid (replayMarket ctx e.row).quotePrecision e.terms.makerFeeAmt := by
    rw [← h.makerFee]
    exact onGrid_roundDown _ _
  have hown := onGrid_roundDown e.market.quotePrecision
  have htakerNet : e.replayTerms.takerQuoteNetCredit = e.terms.takerQuoteNetCredit := by
    rw [ReplayTerms.takerQuoteNetCredit, h.tradeVal, h.takerFee]
    exact e.roundQuote_eq (hgrid.sub hgridTaker) ((hown _).sub (hown _))
  have hmakerNet : e.replayTerms.makerQuoteNetCredit = e.terms.makerQuoteNetCredit := by
    rw [ReplayTerms.makerQuoteNetCredit, h.tradeVal, h.makerFee,
      e.roundQuote_eq (hgrid.sub hgridMaker) ((hown _).sub (hown _)),
      SettlementTerms.makerQuoteNetCredit]
    rcases h.no_rebate with hoff | hzero
    · rw [if_neg]
      exact ne_true_of_eq_false hoff
    · rw [hzero, add_zero, sub_zero, ite_self]
  have hqty : e.replayTerms.qty = e.terms.qty := by
    rw [ReplayTerms.qty, SettlementTerms.qty, replayTerms, hprecision]
    rfl
  cases hpayload : e.payload.takerSide with
  | buy =>
    have hside' : e.replayTerms.payload.takerSide = .buy := hside.trans hpayload
    have hterms : e.terms.payload.takerSide = .buy := hpayload
    rw [ReplayTerms.ledgerDeltas, hside',
      SettlementTerms.computeSettlementLedgerDeltasFromPayload, hterms]
    simp only [hqty, h.tradeVal, h.takerFee, hmakerNet]
    rw [replayTerms, hbase, hquote]
    rfl
  | sell =>
    have hside' : e.replayTerms.payload.takerSide = .sell := hside.trans hpayload
    have hterms : e.terms.payload.takerSide = .sell := hpayload
    rw [ReplayTerms.ledgerDeltas, hside',
      SettlementTerms.computeSettlementLedgerDeltasFromPayload, hterms]
    simp only [hqty, h.tradeVal, h.makerFee, htakerNet]
    rw [replayTerms, hbase, hquote]
    rfl

/-- The validator and the crash-replay path compute what the first application has
computed exactly for the events of `Replayable`. -/
theorem replayable_iff : e.replayTerms.hashInput js e.raw = e.terms.hashInput js e.payload ∧
    e.replayTerms.ledgerDeltas = e.terms.computeSettlementLedgerDeltasFromPayload ∧
    e.crashHashInput = e.terms.hashInput js e.payload ↔ e.Replayable := by
  constructor
  · rintro ⟨hhash, -, hcrash⟩
    obtain ⟨hpayload, htradeVal, htaker, hmaker, -⟩ := EventHashInput.mk.inj hhash
    obtain ⟨hrebate, hfee⟩ := e.makerFee_of_eq htradeVal hmaker
    exact
      { normal := (canonical_eq_iff e.keys_nodup e.payload.keys_nodup).mp hpayload
        no_rebate := hrebate
        tradeVal := htradeVal
        takerFee := htaker
        makerFee := hfee
        order := e.crashHashInput_eq_iff.mp hcrash }
  · intro h
    refine ⟨?_, h.ledgerDeltas_eq, e.crashHashInput_eq_iff.mpr h.order⟩
    have hcanonical := (canonical_eq_iff e.keys_nodup e.payload.keys_nodup).mpr h.normal
    rw [ReplayTerms.hashInput, SettlementTerms.hashInput, hcanonical, h.tradeVal, h.takerFee,
      h.makerFeeForHash, h.ledgerDeltas_eq]

end AppliedEvent

/-- The replay validator accepts every honest settlement, and the crash-replay path computes
the hash of the first application, exactly for the events of `Replayable`. `digest` is
SHA-256 of the joined texts, as an injective function. -/
theorem replay_accepts_iff {js : JsText} {ctx : SettlementContext} {H : Type} [DecidableEq H]
    (digest : EventHashInput → H) (hdigest : Function.Injective digest) (events : List (AppliedEvent
    js ctx)) : (replaySettlementIntegrityCheck js ctx digest (events.map (·.stored digest)) = .ok 0
    ∧ ∀ e ∈ events, e.replayTerms.ledgerDeltas = e.terms.computeSettlementLedgerDeltasFromPayload ∧
    digest e.crashHashInput = (e.stored digest).hash) ↔ ∀ e ∈ events, e.Replayable := by
  rw [replaySettlementIntegrityCheck_eq (·.stored digest) AppliedEvent.replayTerms
    fun e _ => e.resolveReplayTerms_raw]
  have hcount : (Except.ok (events.countP fun e => digest (e.replayTerms.hashInput js
        (e.stored digest).payload) ≠ (e.stored digest).hash) : Except SettlementError ℕ) =
        .ok 0 ↔
      ∀ e ∈ events, e.replayTerms.hashInput js e.raw = e.terms.hashInput js e.payload := by
    rw [Except.ok.injEq, countP_eq_zero]
    refine forall₂_congr fun e _ => ?_
    rw [decide_eq_true_iff, not_not]
    exact hdigest.eq_iff
  rw [hcount, ← forall₂_and]
  refine forall₂_congr fun e _ => ?_
  rw [← e.replayable_iff]
  exact and_congr_right fun _ => and_congr_right fun _ => hdigest.eq_iff

def plainNat (s : String) : ℕ := s.toList.foldl (fun n c => 10 * n + (c.toNat - 48)) 0

def plainJs : JsText :=
  { trim := id
    toLowerCase := id
    number := fun _ => .null
    decimal := fun s => plainNat s
    uuid := plainNat
    toNumeric := fun x => String.ofList (Nat.toDigits 10 x.num.natAbs)
    localeCompare := fun a b => if a < b then .lt else if a = b then .eq else .gt }

/-- The payload of one unit at `price` bought by user 1 of user 2. -/
def plainPayload (price : String) : NormalPayload :=
  { eventId := .num 7
    matchEngineId := some "default"
    texts := ⟨"BTC-USDT", price, "1", "11", "12", "1", "2"⟩
    takerSide := .buy
    timestamp := .num 1700000000 }

/-- The same payload as the column stores it, with its fields in another order. -/
def storedPayload (price : String) : PayloadObject :=
  [("qty", .str "1"), ("price", .str price), ("symbol", .str "BTC-USDT"), ("event_id", .num 7),
   ("timestamp", .num 1700000000), ("taker_side", .str "buy"), ("maker_user_id", .str "2"),
   ("taker_user_id", .str "1"), ("maker_order_id", .str "12"), ("taker_order_id", .str "11"),
   ("match_engine_id", .str "default")]

def plainContext (row : MarketRow) (rebates : Bool) : SettlementContext :=
  { sampleContext rebates with markets := [row] }

def plainEffect (price : String) (market : MarketAssets) (rebates : Bool) : SettlementEffect :=
  let t : SettlementTerms :=
    ⟨(plainPayload price).texts.read plainJs .buy, market, feeRates, rebates⟩
  ⟨t.entries 7, t.updates sampleBalances, [t.trade]⟩

def plainEvent (price : String) (row : MarketRow) (market : MarketAssets) (rebates : Bool)
    (hresolved : resolveMarketAssets (plainContext row rebates) "BTC-USDT" = .ok market)
    (hfound : row.symbol = "BTC-USDT")
    (hnormal : normalizeSettlementPayload plainJs (storedPayload price) =
      .ok (plainPayload price))
    (happlied : settle (plainContext row rebates) 7
      ((plainPayload price).texts.read plainJs .buy) sampleBalances =
        .ok (plainEffect price market rebates)) :
    AppliedEvent plainJs (plainContext row rebates) where
  id := 7
  raw := storedPayload price
  payload := plainPayload price
  row := row
  market := market
  bal := sampleBalances
  effect := plainEffect price market rebates
  ledger := (plainEffect price market rebates).entries
  keys_nodup := by simp [storedPayload]
  normal := hnormal
  found := by simp [plainContext, plainPayload, hfound]
  resolved := hresolved
  applied := happlied
  unchanged := by
    refine filter_eq_self.mpr fun x hx => ?_
    obtain ⟨d, -, rfl⟩ := mem_map.mp hx
    rfl

def honestEvent : AppliedEvent plainJs (plainContext sampleMarket false) :=
  plainEvent "100" sampleMarket sampleAssets false (by decide +kernel) rfl (by decide +kernel)
    (by decide +kernel)

def rebatedEvent : AppliedEvent plainJs (plainContext sampleMarket true) :=
  plainEvent "100" sampleMarket sampleAssets true (by decide +kernel) rfl (by decide +kernel)
    (by decide +kernel)

def unnamedQuote : MarketRow := { sampleMarket with quoteCurrencyId := none }

def unnamedEvent : AppliedEvent plainJs (plainContext unnamedQuote false) :=
  plainEvent "1" unnamedQuote { sampleAssets with quotePrecision := 8 } false
    (by decide +kernel) rfl (by decide +kernel) (by decide +kernel)

def longerQuote : MarketRow := { sampleMarket with quoteAsset := "BTCB" }

def longerEvent : AppliedEvent plainJs (plainContext longerQuote false) :=
  plainEvent "100" longerQuote { sampleAssets with quote := "BTCB" } false
    (by decide +kernel) rfl (by decide +kernel) (by decide +kernel)

theorem honestEvent_accepted : replaySettlementIntegrityCheck
    plainJs (plainContext sampleMarket false) id [honestEvent.stored id] = .ok 0 ∧
    honestEvent.crashHashInput = (honestEvent.stored id).hash := by
  have hreplayable : ∀ e ∈ [honestEvent], e.Replayable := by
    intro e he
    obtain rfl := mem_singleton.mp he
    constructor <;> decide +kernel
  obtain ⟨hcheck, hevents⟩ :=
    (replay_accepts_iff id Function.injective_id [honestEvent]).mpr hreplayable
  exact ⟨hcheck, (hevents honestEvent mem_cons_self).2⟩

/-- With rebates on the validator reports a mismatch, and so it does where the market names
no quote currency; and where the name of one asset begins with that of the other, the
crash-replay path computes another hash. -/
theorem rebatedBuy_mismatch : replaySettlementIntegrityCheck
    plainJs (plainContext sampleMarket true) id [rebatedEvent.stored id] = .ok 1 ∧
    replaySettlementIntegrityCheck plainJs (plainContext unnamedQuote false) id [unnamedEvent.stored
    id] = .ok 1 ∧ longerEvent.crashHashInput ≠ (longerEvent.stored id).hash := by
  decide +kernel

end MetherCEX
