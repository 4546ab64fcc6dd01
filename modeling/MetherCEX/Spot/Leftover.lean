import MetherCEX.Spot.Locks

/-!
# What is left of a lock

An order that is filled or cancelled should leave nothing of its lock behind. That fails
where the lock, the debits and the unlock are not computed alike.
-/

namespace MetherCEX

open Checks Decimal List Option

theorem OrderRow.le_filledQuantity_of_filled {r : OrderRow} {fillQty : ℚ}
    (h : (r.addFilled fillQty).status = .filled) :
    (r.addFilled fillQty).quantity ≤ (r.addFilled fillQty).filledQuantity := by
  by_cases hle : r.quantity - r.filledQuantity - fillQty ≤ 0
  · change r.quantity ≤ r.filledQuantity + fillQty
    linarith
  · simp [OrderRow.addFilled, hle] at h

structure Fill where
  price : ℚ
  qty : ℚ
  deriving DecidableEq

inductive Ending
  | filled
  | cancelled
  deriving DecidableEq

/-- An accepted order, its fills in the order in which they are settled, and its end. -/
structure OrderLife where
  market : SpotMarket
  quotePrecision : ℕ
  slippageBps : ℚ
  order : CheckedOrder
  fills : List Fill
  ending : Ending
  deriving DecidableEq

namespace OrderLife

variable (l : OrderLife)

def row : OrderRow :=
  l.fills.foldl (fun r f => r.addFilled (roundDown l.market.qtyPrecision f.qty)) (l.order.row 0)

def locked : ℚ := l.order.lockAmount l.slippageBps l.market

def debited : ℚ :=
  (l.fills.map fun f =>
    fillDebit l.market.qtyPrecision l.quotePrecision l.order.side f.price f.qty).sum

def unlocked : ℚ :=
  match l.ending with
  | .filled => 0
  | .cancelled => l.row.unlockAmount

def NothingLeft : Prop := l.locked = l.debited + l.unlocked
  deriving Decidable

def Accepted : Prop :=
  ∃ cfg markets best userId body, checkOrder cfg markets best userId body = .ok l.order ∧
    markets l.order.market = some l.market

/-- The order ends with the fill that completes it, or with the cancel of a row that can be
cancelled. -/
def Ends : Prop :=
  match l.ending with
  | .filled => l.row.status = .filled
  | .cancelled => l.row.isCancellable = true

instance : Decidable l.Ends := by
  dsimp only [Ends]
  cases l.ending <;> infer_instance

/-- The fills are within the limit and the quantity of the order. -/
structure Valid : Prop where
  accepted : l.Accepted
  pos : ∀ f ∈ l.fills, 0 < f.qty
  within : ∀ f ∈ l.fills, l.order.WithinLimit f.price
  total : (l.fills.map Fill.qty).sum ≤ l.order.qtyRounded
  ends : l.Ends

def unlockPrice : ℚ := (l.order.price <|> l.order.stopPrice).getD 0

def remaining : ℚ := l.order.qtyRounded - (l.fills.map Fill.qty).sum

/-- A buy is locked and filled at the price at which it is unlocked, and no amount of it is
rounded. -/
structure ExactBuy : Prop where
  kind : l.order.kind.hasPrice = true ∨ l.order.kind = .stopLoss ∧ l.slippageBps = 0
  qty : OnGrid l.market.pricePrecision l.order.qtyRounded
  lock : OnGrid l.market.pricePrecision (l.unlockPrice * l.order.qtyRounded)
  fills : ∀ f ∈ l.fills, f.price = l.unlockPrice ∧ OnGrid l.quotePrecision (f.price * f.qty)
  unlock : l.ending = .cancelled →
    OnGrid 8 l.unlockPrice ∧ OnGrid 8 (l.unlockPrice * l.remaining)

structure Exact : Prop where
  fills : ∀ f ∈ l.fills, OnGrid l.market.qtyPrecision f.qty
  unlock : l.ending = .cancelled → OnGrid 8 l.remaining
  buy : l.order.side = .buy → l.ExactBuy

variable {l : OrderLife}

theorem row_fields (hfills : ∀ f ∈ l.fills, OnGrid l.market.qtyPrecision f.qty) :
    l.row.quantity = l.order.qtyRounded ∧ l.row.side = l.order.side ∧
    l.row.priceForUnlock = l.unlockPrice ∧ l.row.filledQuantity = (l.fills.map Fill.qty).sum ∧
    (l.row.status = .filled → l.row.quantity ≤ l.row.filledQuantity) := by
  unfold row
  generalize l.fills = fills at hfills
  induction fills using List.reverseRecOn with
  | nil =>
    refine ⟨rfl, rfl, rfl, rfl, fun hfilled => ?_⟩
    simp only [foldl_nil, CheckedOrder.row] at hfilled
    split_ifs at hfilled
  | append_singleton fills f ih =>
    obtain ⟨hqty, hside, hprice, hfilled, -⟩ :=
      ih fun g hg => hfills g (mem_append_left _ hg)
    have hgrid := (hfills f (mem_append_right _ (mem_singleton_self f))).roundDown_eq
    rw [foldl_append, map_append, sum_append, foldl_cons, foldl_nil,
      map_singleton, sum_singleton, hgrid, ← hfilled]
    exact ⟨hqty, hside, hprice, rfl, OrderRow.le_filledQuantity_of_filled⟩

theorem Accepted.onGrid (h : l.Accepted) : OnGrid l.market.qtyPrecision l.order.qtyRounded ∧
    (∀ p ∈ l.order.price, OnGrid l.market.pricePrecision p) ∧
    (∀ p ∈ l.order.stopPrice, OnGrid l.market.pricePrecision p) ∧ l.order.price.isSome =
    l.order.kind.hasPrice ∧ (l.order.kind = .stopLoss → l.order.stopPrice.isSome = true) := by
  obtain ⟨cfg, markets, best, userId, body, hcheck, hmarket⟩ := h
  have hiff := (checkOrder_valid hcheck).price_iff
  simp only [checkOrder, bind_eq_ok, refuseIf_eq_ok, exists_const, pure_eq_ok] at hcheck
  obtain ⟨parsed, -, m, hm, -, price, hprice, stopPrice, hstop, delta, -, -, -, -, horder⟩ :=
    hcheck
  rw [← horder] at hmarket hiff ⊢
  obtain rfl : m = l.market := some.inj ((checkMarket_eq_ok hm).symm.trans hmarket)
  obtain ⟨hstopGrid, hstopSome⟩ := checkStopPrice_eq_ok hstop
  exact ⟨onGrid_roundDown _ _, onGrid_of_checkPrice hprice, hstopGrid, hiff,
    fun hkind => hstopSome (.inl hkind)⟩

theorem buyLockPrice_eq (haccepted : l.Accepted) (h : l.ExactBuy) : l.order.buyLockPrice l.market =
    l.unlockPrice ∧ OnGrid l.market.pricePrecision l.unlockPrice := by
  obtain ⟨-, hprice, hstop, hsome, hloss⟩ := haccepted.onGrid
  rcases h.kind with hkind | ⟨hkind, -⟩
  · obtain ⟨p, hp⟩ := isSome_iff_exists.mp (hsome.trans hkind)
    have hunlock : l.unlockPrice = p := by simp [unlockPrice, hp]
    rw [hunlock]
    refine ⟨?_, hprice p hp⟩
    unfold CheckedOrder.buyLockPrice
    cases hcase : l.order.kind <;> simp [hcase, OrderKind.hasPrice, hp] at hkind ⊢
  · obtain ⟨p, hp⟩ := isSome_iff_exists.mp (hloss hkind)
    have hnone : l.order.price = none := by
      rw [hkind] at hsome
      exact isSome_eq_false_iff.mp hsome |> isNone_iff_eq_none.mp
    have hunlock : l.unlockPrice = p := by simp [unlockPrice, hnone, hp]
    rw [hunlock]
    exact ⟨by simp [CheckedOrder.buyLockPrice, hkind, hp], hstop p hp⟩

theorem locked_of_buy (haccepted : l.Accepted) (hside : l.order.side = .buy) (h : l.ExactBuy) :
    l.locked = l.unlockPrice * l.order.qtyRounded := by
  obtain ⟨hprice, hgrid⟩ := buyLockPrice_eq haccepted h
  rw [locked, CheckedOrder.lockAmount, hside]
  simp only [hprice, lockAmountQuote_eq hgrid h.qty h.lock]
  split_ifs with hkind
  · have hbps : l.slippageBps = 0 := by
      rcases h.kind with hhas | hloss
      · rcases hkind with hkind | hkind <;> rw [hkind] at hhas <;> cases hhas
      · exact hloss.2
    rw [hbps, zero_div, add_zero, mul_one]
    exact (h.lock.add_places 4).roundDown_eq
  · rfl

theorem debited_of_buy (hside : l.order.side = .buy) (h : l.ExactBuy) :
    l.debited = l.unlockPrice * (l.fills.map Fill.qty).sum := by
  rw [debited, ← sum_map_mul_left]
  congr 1
  apply map_congr_left
  intro f hf
  obtain ⟨hprice, hgrid⟩ := h.fills f hf
  rw [hside, ← hprice]
  exact hgrid.roundDown_eq

theorem debited_of_sell (hside : l.order.side = .sell) (h : l.Exact) :
    l.debited = (l.fills.map Fill.qty).sum := by
  rw [debited]
  congr 1
  apply map_congr_left
  intro f hf
  rw [hside]
  exact (h.fills f hf).roundDown_eq

theorem remaining_eq_zero (hl : l.Valid) (h : l.Exact) (hending : l.ending = .filled) :
    l.remaining = 0 := by
  obtain ⟨hqty, -, -, hfilled, hstatus⟩ := row_fields h.fills
  have hend := hl.ends
  rw [Ends, hending] at hend
  have hle := hstatus hend
  rw [hqty, hfilled] at hle
  rw [remaining]
  linarith [hl.total]

theorem unlocked_of_buy (hl : l.Valid) (h : l.Exact) (hside : l.order.side = .buy) :
    l.unlocked = l.unlockPrice * l.remaining := by
  obtain ⟨hqty, hrowside, hprice, hfilled, -⟩ := row_fields h.fills
  cases hending : l.ending with
  | filled => rw [unlocked, hending, remaining_eq_zero hl h hending, mul_zero]
  | cancelled =>
    obtain ⟨hgrid, hvalue⟩ := (h.buy hside).unlock hending
    have hrest := h.unlock hending
    rw [unlocked, hending]
    simp only [OrderRow.unlockAmount, hrowside, hside, hqty, hfilled, hprice]
    change unlockAmountQuote l.unlockPrice (roundDown 8 l.remaining) 8 = _
    rw [hrest.roundDown_eq]
    exact lockAmountQuote_eq hgrid hrest hvalue

theorem unlocked_of_sell (hl : l.Valid) (h : l.Exact) (hside : l.order.side = .sell) :
    l.unlocked = l.remaining := by
  obtain ⟨hqty, hrowside, -, hfilled, -⟩ := row_fields h.fills
  cases hending : l.ending with
  | filled => rw [unlocked, hending, remaining_eq_zero hl h hending]
  | cancelled =>
    have hrest := h.unlock hending
    rw [unlocked, hending]
    simp only [OrderRow.unlockAmount, hrowside, hside, hqty, hfilled]
    change roundDown 8 (roundDown 8 l.remaining) = _
    rw [hrest.roundDown_eq, hrest.roundDown_eq]

def lifeMarket (qtyPrecision : ℕ) : SpotMarket :=
  ⟨"BTC_USDT", .active, 0, "0", 0, "0", 2, qtyPrecision, some 1, some 2⟩

def lifeOrder (side : Side) (kind : OrderKind) (price stopPrice : Option ℚ) (qty : ℚ) :
    CheckedOrder :=
  ⟨8, "BTC_USDT", side, kind, .gtc, price, stopPrice, .blank, qty, false, ⟨100, 0⟩⟩

theorem valid_of_body {l : OrderLife} (body : PlaceBody)
    (haccepted : checkOrder ⟨false⟩ (fun _ => some l.market) (fun _ => ⟨100, 0⟩) 8 body =
    .ok l.order) (hfills : ∀ f ∈ l.fills, 0 < f.qty ∧ l.order.WithinLimit f.price)
    (htotal : (l.fills.map Fill.qty).sum ≤ l.order.qtyRounded) (hends : l.Ends) : l.Valid :=
  ⟨⟨⟨false⟩, _, _, 8, body, haccepted, rfl⟩, fun f hf => (hfills f hf).1,
    fun f hf => (hfills f hf).2, htotal, hends⟩

def halfFilledLife : OrderLife :=
  ⟨lifeMarket 4, 6, 500, lifeOrder .buy .limit (some 100) none 1, [⟨100, 1 / 2⟩], .cancelled⟩

def improvedLife : OrderLife :=
  ⟨lifeMarket 4, 6, 500, lifeOrder .buy .limit (some 100) none 1, [⟨99, 1⟩], .filled⟩

def marketLife : OrderLife :=
  ⟨lifeMarket 4, 6, 500, lifeOrder .buy .market none none 1, [], .cancelled⟩

def reserveLife : OrderLife :=
  ⟨lifeMarket 4, 6, 500, lifeOrder .buy .stopLoss none (some 100) 1, [⟨100, 1⟩], .filled⟩

def smallBuyLife : OrderLife :=
  ⟨lifeMarket 4, 6, 500, lifeOrder .buy .limit (some 100) none (5 / 1000), [⟨100, 5 / 1000⟩],
    .filled⟩

def fineSellLife : OrderLife :=
  ⟨lifeMarket 10, 6, 500, lifeOrder .sell .limit (some 100) none (1 / 10 ^ 10), [], .cancelled⟩

end OrderLife

end MetherCEX
