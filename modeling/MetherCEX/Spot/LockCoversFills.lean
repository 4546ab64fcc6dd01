import MetherCEX.Spot.Locks

/-!
# Whether the lock of a limit buy covers its fills

The route locks price times quantity with `price_precision` places for the price, for the quantity
and for the product. A settlement debits price times quantity of the fill with the places of the
quote currency.
-/

namespace MetherCEX

open Decimal

structure OrderFill where
  price : ℚ
  qty : ℚ
  deriving DecidableEq

/-- Fills of a buy: each at most at the limit, with a positive quantity of the market, and
no more than the order in all. -/
structure FillsWithin (qtyPrecision : ℕ) (limit qty : ℚ) (fills : List OrderFill) : Prop where
  price_le : ∀ f ∈ fills, f.price ≤ limit
  qty_pos : ∀ f ∈ fills, 0 < f.qty
  qty_grid : ∀ f ∈ fills, OnGrid qtyPrecision f.qty
  sum_le : (fills.map OrderFill.qty).sum ≤ qty

def debited (qtyPrecision quotePrecision : ℕ) (fills : List OrderFill) : ℚ :=
  (fills.map fun f => fillDebit qtyPrecision quotePrecision .buy f.price f.qty).sum

theorem sum_fillDebit_le {qtyPrecision : ℕ} (quotePrecision : ℕ) {limit qty : ℚ}
    (hlimit : 0 ≤ limit) {fills : List OrderFill} (h : FillsWithin qtyPrecision limit qty fills) :
    debited qtyPrecision quotePrecision fills ≤ roundDown quotePrecision (limit * qty) := by
  have hlimited : debited qtyPrecision quotePrecision fills ≤
      ((fills.map fun f => limit * f.qty).map (roundDown quotePrecision)).sum := by
    rw [debited, List.map_map]
    refine List.sum_le_sum fun f hf => roundDown_mono ?_
    exact mul_le_mul_of_nonneg_right (h.price_le f hf) (h.qty_pos f hf).le
  have hnonneg : ∀ x ∈ fills.map fun f => limit * f.qty, 0 ≤ x := by
    intro x hx
    obtain ⟨f, hf, rfl⟩ := List.mem_map.mp hx
    exact mul_nonneg hlimit (h.qty_pos f hf).le
  calc debited qtyPrecision quotePrecision fills
      ≤ roundDown quotePrecision (fills.map fun f => limit * f.qty).sum :=
        hlimited.trans (sum_roundDown_le hnonneg)
    _ = roundDown quotePrecision (limit * (fills.map OrderFill.qty).sum) := by
        rw [List.sum_map_mul_left]
    _ ≤ roundDown quotePrecision (limit * qty) :=
        roundDown_mono (mul_le_mul_of_nonneg_left h.sum_le hlimit)

theorem le_lockAmountQuote_iff {pricePrecision quotePrecision : ℕ}
    {price qty : ℚ} (hprice : OnGrid pricePrecision price) (hnonneg : 0 ≤ price) (hqty : 0 ≤ qty) :
    roundDown quotePrecision (price * qty) ≤ lockAmountQuote price qty pricePrecision ↔
    OnGrid pricePrecision (roundDown quotePrecision (price * qty)) ∧
    roundDown quotePrecision (price * qty) ≤ price * roundDown pricePrecision qty := by
  have hcut : 0 ≤ price * roundDown pricePrecision qty :=
    mul_nonneg hnonneg (roundDown_nonneg hqty)
  have hlock : lockAmountQuote price qty pricePrecision =
      roundDown pricePrecision (price * roundDown pricePrecision qty) := by
    rw [lockAmountQuote, hprice.roundDown_eq]
  rw [hlock]
  constructor
  · intro hle
    refine ⟨?_, hle.trans (roundDown_le hcut)⟩
    rcases le_total quotePrecision pricePrecision with hplaces | hplaces
    · exact (onGrid_roundDown quotePrecision _).of_le hplaces
    · -- with more places for the value, the lock is at most the value, so they are equal
      have hge : roundDown pricePrecision (price * roundDown pricePrecision qty) ≤
          roundDown quotePrecision (price * qty) := by
        apply ((onGrid_roundDown pricePrecision _).of_le hplaces).le_roundDown
        exact (roundDown_le hcut).trans
          (mul_le_mul_of_nonneg_left (roundDown_le hqty) hnonneg)
      rw [le_antisymm hle hge]
      exact onGrid_roundDown pricePrecision _
  · rintro ⟨hgrid, hle⟩
    exact hgrid.le_roundDown hle

theorem CheckedOrder.lockAmount_limit_buy {c : CheckedOrder} {price : ℚ} (hside : c.side = .buy)
    (hkind : c.kind = .limit) (hprice : c.price = some price) (slippageBps : ℚ) (m : SpotMarket) :
    c.lockAmount slippageBps m = lockAmountQuote price c.qtyRounded m.pricePrecision := by
  simp [lockAmount, buyLockPrice, hside, hkind, hprice]

/-- The lock of a limit buy covers all its fills, whatever they are, exactly if the value
of the order at its limit, cut off after the places of the quote currency, has no more
places than the price, and is at most the limit times the quantity cut off after the
places of the price. -/
theorem lock_covers_fills_iff (m : SpotMarket) (quotePrecision : ℕ) (slippageBps : ℚ)
    (c : CheckedOrder) (price : ℚ) (hside : c.side = .buy) (hkind : c.kind = .limit)
    (hprice : c.price = some price) (hprice_grid : OnGrid m.pricePrecision price)
    (hqty_grid : OnGrid m.qtyPrecision c.qtyRounded) (hprice_nonneg : 0 ≤ price) (hqty_nonneg : 0 ≤
    c.qtyRounded) : (∀ fills, FillsWithin m.qtyPrecision price c.qtyRounded fills →
    debited m.qtyPrecision quotePrecision fills ≤ c.lockAmount slippageBps m) ↔
    OnGrid m.pricePrecision (roundDown quotePrecision (price * c.qtyRounded)) ∧ roundDown
    quotePrecision (price * c.qtyRounded) ≤ price * roundDown m.pricePrecision c.qtyRounded := by
  rw [c.lockAmount_limit_buy hside hkind hprice,
    ← le_lockAmountQuote_iff hprice_grid hprice_nonneg hqty_nonneg]
  constructor
  · intro hcovers
    rcases hqty_nonneg.eq_or_lt with hzero | hpos
    · simp [← hzero, lockAmountQuote]
    · -- one fill of the whole order at its limit
      have hwhole : FillsWithin m.qtyPrecision price c.qtyRounded [⟨price, c.qtyRounded⟩] := by
        constructor <;> simp [hpos, hqty_grid]
      have hdebit := hcovers _ hwhole
      simpa [debited, fillDebit, tradeValue] using hdebit
  · intro hle fills hfills
    exact (sum_fillDebit_le quotePrecision hprice_nonneg hfills).trans hle

def mkrUsdt : SpotMarket :=
  ⟨"MKR_USDT", .active, 1 / 1000, "0.001", 1, "1", 2, 5, some 1, some 2⟩

def mkrBody (qty : ℚ) : PlaceBody :=
  ⟨"MKR_USDT", "buy", "limit", "", "gtc", .finite 1000, .finite qty, .blank, .blank, .blank,
    false, false⟩

def mkrBuy (qty : ℚ) : CheckedOrder :=
  ⟨7, "MKR_USDT", .buy, .limit, .gtc, some 1000, none, .blank, qty, false, ⟨0, 0⟩⟩

/-- The lock covers a quantity with two places. -/
theorem mkrBuy_covered :
    debited 5 6 [⟨1000, 10 / 100⟩, ⟨999, 15 / 100⟩] ≤ (mkrBuy (25 / 100)).lockAmount 0 mkrUsdt :=
  (lock_covers_fills_iff mkrUsdt 6 0 (mkrBuy (25 / 100)) 1000 rfl rfl rfl
    (by decide +kernel) (by decide +kernel) (by decide +kernel) (by decide +kernel)).mpr
    (by decide +kernel) _ (by constructor <;> decide +kernel)

/-- A buy of 1.005 at 1000.00 locks 1000.00, and its fill is debited 1005.00. -/
theorem mkrBuy_uncovered :
    checkOrder ⟨false⟩ (fun _ => some mkrUsdt) (fun _ => ⟨0, 0⟩) 7 (mkrBody (1005 / 1000)) =
    .ok (mkrBuy (1005 / 1000)) ∧ (mkrBuy (1005 / 1000)).lockAmount 0 mkrUsdt = 1000 ∧ FillsWithin
    5 1000 (1005 / 1000) [⟨1000, 1005 / 1000⟩] ∧ debited 5 6 [⟨1000, 1005 / 1000⟩] = 1005 := by
  refine ⟨by decide +kernel, by decide +kernel, ?_, by decide +kernel⟩
  constructor <;> decide +kernel

end MetherCEX
