import MetherCEX.Engine.Types
import Mathlib.Data.Prod.Lex
import Mathlib.Order.WithBot

/-!
# The priority keys of the book

Both sides of a book are ordered maps keyed by price, time and order id (`orderbook.rs`). `BidKey`
and `AskKey` differ only in how two prices compare: a bid is better when its price is higher, so
its price is stored reversed.
-/

namespace MetherCEX

/-- A priority key over prices of type `P`. -/
structure PriceKey (P : Type*) where
  priceKey : Option P
  createdAt : ℕ
  orderId : Uuid
  deriving DecidableEq

namespace PriceKey

variable {P : Type*} [LinearOrder P]

/-- The comparison of two keys; a missing price is after every price. -/
def cmp (a b : PriceKey P) : Ordering :=
  match a.priceKey, b.priceKey with
  | none, none =>
    (compare a.createdAt b.createdAt).then (compare a.orderId b.orderId)
  | none, some _ => .gt
  | some _, none => .lt
  | some p, some q =>
    ((compare p q).then (compare a.createdAt b.createdAt)).then
      (compare a.orderId b.orderId)

def topPrice : Option P → WithTop P
  | none => ⊤
  | some p => p

def toLexKey (a : PriceKey P) : WithTop P ×ₗ (ℕ ×ₗ ℕ) :=
  toLex (topPrice a.priceKey, toLex (a.createdAt, a.orderId))

omit [LinearOrder P] in
theorem toLexKey_injective :
    Function.Injective (toLexKey : PriceKey P → WithTop P ×ₗ (ℕ ×ₗ ℕ)) := by
  rintro ⟨p, c, i⟩ ⟨q, d, j⟩ h
  obtain ⟨hpq, hrest⟩ := Prod.mk.inj (toLex.injective h)
  obtain ⟨hc, hi⟩ := Prod.mk.inj (toLex.injective hrest)
  have hprice : p = q := by
    cases p <;> cases q <;> simp_all [topPrice]
  rw [hprice, show c = d from hc, show i = j from hi]

theorem cmp_eq_lt_iff (a b : PriceKey P) : a.cmp b = .lt ↔ a.toLexKey < b.toLexKey := by
  obtain ⟨p, c, i⟩ := a
  obtain ⟨q, d, j⟩ := b
  simp only [toLexKey, Prod.Lex.toLex_lt_toLex]
  cases p with
  | none =>
    cases q with
    | none => simp [cmp, topPrice, Ordering.then_eq_lt, compare_lt_iff_lt]
    | some q => simp [cmp, topPrice]
  | some p =>
    cases q with
    | none => simp [cmp, topPrice]
    | some q =>
      simp only [cmp, topPrice, Ordering.then_eq_lt, Ordering.then_eq_eq,
        compare_lt_iff_lt, compare_eq_iff_eq, WithTop.coe_lt_coe, WithTop.coe_inj]
      tauto

theorem cmp_eq_gt_iff (a b : PriceKey P) : a.cmp b = .gt ↔ b.toLexKey < a.toLexKey := by
  obtain ⟨p, c, i⟩ := a
  obtain ⟨q, d, j⟩ := b
  simp only [toLexKey, Prod.Lex.toLex_lt_toLex]
  cases p with
  | none =>
    cases q with
    | none =>
      simp [cmp, topPrice, Ordering.then_eq_gt, compare_gt_iff_gt, eq_comm (a := c)]
    | some q => simp [cmp, topPrice]
  | some p =>
    cases q with
    | none => simp [cmp, topPrice]
    | some q =>
      simp only [cmp, topPrice, Ordering.then_eq_gt, Ordering.then_eq_eq,
        compare_gt_iff_gt, compare_eq_iff_eq, WithTop.coe_lt_coe, WithTop.coe_inj,
        eq_comm (a := p), eq_comm (a := c)]
      tauto

theorem cmp_ne_gt_iff (a b : PriceKey P) : a.cmp b ≠ .gt ↔ a.toLexKey ≤ b.toLexKey := by
  rw [Ne, cmp_eq_gt_iff, not_lt]

/-- Keys are compared by `cmp`, as the ordered maps of the book compare them. -/
instance : LinearOrder (PriceKey P) where
  le a b := a.cmp b ≠ .gt
  lt a b := a.cmp b = .lt
  le_refl a := (cmp_ne_gt_iff a a).mpr le_rfl
  le_trans a b c hab hbc :=
    (cmp_ne_gt_iff a c).mpr
      (((cmp_ne_gt_iff a b).mp hab).trans ((cmp_ne_gt_iff b c).mp hbc))
  le_antisymm a b hab hba :=
    toLexKey_injective
      (le_antisymm ((cmp_ne_gt_iff a b).mp hab) ((cmp_ne_gt_iff b a).mp hba))
  le_total a b := by
    rw [cmp_ne_gt_iff, cmp_ne_gt_iff]
    exact le_total _ _
  lt_iff_le_not_ge a b := by
    rw [cmp_eq_lt_iff, cmp_ne_gt_iff, cmp_ne_gt_iff]
    exact lt_iff_le_not_ge
  toDecidableLE a b := inferInstanceAs (Decidable (a.cmp b ≠ .gt))
  toDecidableLT a b := inferInstanceAs (Decidable (a.cmp b = .lt))
  toDecidableEq := inferInstance

theorem lt_iff_cmp {a b : PriceKey P} : a < b ↔ a.cmp b = .lt := Iff.rfl

end PriceKey

abbrev BidKey := PriceKey Priceᵒᵈ

abbrev AskKey := PriceKey Price

def BidKey.fromOrder (o : Order) : BidKey :=
  ⟨o.price.map OrderDual.toDual, o.createdAt, o.id⟩

def AskKey.fromOrder (o : Order) : AskKey :=
  ⟨o.price, o.createdAt, o.id⟩

end MetherCEX
