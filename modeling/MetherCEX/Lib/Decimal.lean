import Mathlib.Algebra.Order.Floor.Ring
import Mathlib.Data.Rat.Floor
import Mathlib.Tactic

/-!
# Decimals

Decimals are exact rational numbers. `roundDown k x` cuts `x` off after `k` decimal places, toward
zero (`toDecimalPlaces` with `ROUND_DOWN`). It never moves a number away from zero and changes no
sign.
-/

namespace Decimal

open List

def truncate (x : ℚ) : ℤ := if 0 ≤ x then ⌊x⌋ else ⌈x⌉

/-- The number cut off after `places` decimal places. -/
def roundDown (places : ℕ) (x : ℚ) : ℚ := truncate (x * 10 ^ places) / 10 ^ places

theorem pow_ten_pos (places : ℕ) : (0 : ℚ) < 10 ^ places := by positivity

@[simp] theorem roundDown_zero (places : ℕ) : roundDown places 0 = 0 := by
  simp [roundDown, truncate]

variable {x y : ℚ} {places : ℕ} {xs : List ℚ}

theorem truncate_nonneg (hx : 0 ≤ x) : 0 ≤ truncate x := by
  rw [truncate, if_pos hx]
  exact Int.floor_nonneg.mpr hx

theorem roundDown_nonneg (hx : 0 ≤ x) : 0 ≤ roundDown places x := by
  have hscaled : 0 ≤ x * 10 ^ places := mul_nonneg hx (pow_ten_pos places).le
  apply div_nonneg
  · exact_mod_cast truncate_nonneg hscaled
  · exact (pow_ten_pos places).le

theorem roundDown_le (hx : 0 ≤ x) : roundDown places x ≤ x := by
  have hscaled : 0 ≤ x * 10 ^ places := mul_nonneg hx (pow_ten_pos places).le
  rw [roundDown, truncate, if_pos hscaled, div_le_iff₀ (pow_ten_pos places)]
  exact Int.floor_le _

theorem truncate_mono (h : x ≤ y) : truncate x ≤ truncate y := by
  unfold truncate
  split_ifs with hx hy hy
  · exact Int.floor_le_floor h
  · exact absurd (hx.trans h) hy
  · exact (Int.ceil_nonpos.mpr (not_le.mp hx).le).trans (Int.floor_nonneg.mpr hy)
  · exact Int.ceil_le_ceil h

theorem roundDown_mono (h : x ≤ y) : roundDown places x ≤ roundDown places y := by
  have hscaled : x * 10 ^ places ≤ y * 10 ^ places :=
    mul_le_mul_of_nonneg_right h (pow_ten_pos places).le
  apply div_le_div_of_nonneg_right _ (pow_ten_pos places).le
  exact_mod_cast truncate_mono hscaled

theorem roundDown_nonpos (hx : x ≤ 0) : roundDown places x ≤ 0 := by
  rw [← roundDown_zero places]
  exact roundDown_mono hx

theorem roundDown_eq_zero_of_eq_neg {places' : ℕ} (h : roundDown places x = -roundDown places' x) :
    roundDown places' x = 0 := by
  rcases le_total 0 x with hx | hx
  · have hleft : 0 ≤ roundDown places x := roundDown_nonneg hx
    have hright : 0 ≤ roundDown places' x := roundDown_nonneg hx
    linarith
  · have hleft : roundDown places x ≤ 0 := roundDown_nonpos hx
    have hright : roundDown places' x ≤ 0 := roundDown_nonpos hx
    linarith

/-- A number with at most `places` decimal places. -/
def OnGrid (places : ℕ) (x : ℚ) : Prop := ∃ n : ℤ, x = n / 10 ^ places

theorem onGrid_roundDown (places : ℕ) (x : ℚ) : OnGrid places (roundDown places x) :=
  ⟨truncate (x * 10 ^ places), rfl⟩

theorem OnGrid.add (hx : OnGrid places x) (hy : OnGrid places y) : OnGrid places (x + y) := by
  obtain ⟨m, rfl⟩ := hx
  obtain ⟨n, rfl⟩ := hy
  use m + n
  push_cast
  ring

theorem OnGrid.sub (hx : OnGrid places x) (hy : OnGrid places y) : OnGrid places (x - y) := by
  obtain ⟨m, rfl⟩ := hx
  obtain ⟨n, rfl⟩ := hy
  use m - n
  push_cast
  ring

theorem OnGrid.zero (places : ℕ) : OnGrid places 0 := ⟨0, by simp⟩

theorem OnGrid.neg (hx : OnGrid places x) : OnGrid places (-x) := by
  rw [← zero_sub]
  exact (OnGrid.zero places).sub hx

theorem OnGrid.list_sum (h : ∀ x ∈ xs, OnGrid places x) : OnGrid places xs.sum := by
  induction xs with
  | nil => exact .zero places
  | cons x xs ih =>
    rw [sum_cons]
    exact (h x mem_cons_self).add (ih fun y hy => h y (mem_cons_of_mem x hy))

@[simp] theorem truncate_intCast (n : ℤ) : truncate n = n := by
  simp [truncate]

theorem OnGrid.roundDown_eq (hx : OnGrid places x) : roundDown places x = x := by
  obtain ⟨n, rfl⟩ := hx
  rw [roundDown, div_mul_cancel₀ _ (pow_ten_pos places).ne', truncate_intCast]

theorem onGrid_iff_roundDown_eq : OnGrid places x ↔ roundDown places x = x := by
  constructor
  · exact OnGrid.roundDown_eq
  · intro h
    rw [← h]
    exact onGrid_roundDown places x

theorem OnGrid.le_roundDown (hx : OnGrid places x) (h : x ≤ y) : x ≤ roundDown places y := by
  rw [← hx.roundDown_eq]
  exact roundDown_mono h

/-- Cutting off the terms of a sum gives no more than cutting off the sum. -/
theorem sum_roundDown_le (h : ∀ x ∈ xs, 0 ≤ x) :
    (xs.map (roundDown places)).sum ≤ roundDown places xs.sum := by
  apply OnGrid.le_roundDown
  · apply OnGrid.list_sum
    intro y hy
    obtain ⟨x, -, rfl⟩ := mem_map.mp hy
    exact onGrid_roundDown places x
  · have hle := sum_le_sum (f := roundDown places) (g := id) fun x hx => roundDown_le (h x hx)
    rwa [map_id] at hle

theorem sub_lt_roundDown (hx : 0 ≤ x) : x - 1 / 10 ^ places < roundDown places x := by
  have hscaled : 0 ≤ x * 10 ^ places := mul_nonneg hx (pow_ten_pos places).le
  rw [roundDown, truncate, if_pos hscaled, lt_div_iff₀ (pow_ten_pos places), sub_mul,
    one_div_mul_cancel (pow_ten_pos places).ne']
  exact Int.sub_one_lt_floor _

/-- Cutting off the terms of a sum takes less than one unit of the last place from each. -/
theorem sum_sub_lt_sum_roundDown (hne : xs ≠ []) (h : ∀ x ∈ xs, 0 ≤ x) :
    xs.sum - xs.length * (1 / 10 ^ places) < (xs.map (roundDown places)).sum := by
  have hlt := sum_lt_sum_of_ne_nil hne (fun x => x - 1 / 10 ^ places) (roundDown places)
    fun x hx => sub_lt_roundDown (h x hx)
  simp only [sub_eq_add_neg] at hlt ⊢
  rwa [sum_map_add, map_id', map_const', sum_replicate, nsmul_eq_mul, mul_neg] at hlt

/-- The number rounded to `places` decimal places, to the nearest and ties away from zero,
as a column `NUMERIC(p, places)` stores it. -/
def roundHalfUp (places : ℕ) (x : ℚ) : ℚ :=
  if 0 ≤ x then ⌊x * 10 ^ places + 1 / 2⌋ / 10 ^ places
  else -(⌊-x * 10 ^ places + 1 / 2⌋ / 10 ^ places)

theorem floor_intCast_add_half (n : ℤ) : ⌊(n : ℚ) + 1 / 2⌋ = n := by
  rw [Int.floor_eq_iff]
  norm_num

theorem OnGrid.roundHalfUp_eq (hx : OnGrid places x) : roundHalfUp places x = x := by
  obtain ⟨n, rfl⟩ := hx
  have hpow := (pow_ten_pos places).ne'
  rw [roundHalfUp]
  split_ifs
  · rw [div_mul_cancel₀ _ hpow, floor_intCast_add_half]
  · have hneg : -((n : ℚ) / 10 ^ places) * 10 ^ places = ((-n : ℤ) : ℚ) := by
      rw [neg_mul, div_mul_cancel₀ _ hpow, Int.cast_neg]
    rw [hneg, floor_intCast_add_half, Int.cast_neg, neg_div, neg_neg]

theorem floor_half_sub (h : Int.fract y ≠ 1 / 2) : ⌊1 / 2 - y⌋ = -⌊y + 1 / 2⌋ := by
  have hy := Int.floor_add_fract y
  have hlt := Int.fract_lt_one y
  have hnonneg := Int.fract_nonneg y
  rcases lt_or_gt_of_ne h with hf | hf
  · rw [show ⌊y + 1 / 2⌋ = ⌊y⌋ from Int.floor_eq_iff.mpr ⟨by linarith, by linarith⟩,
      Int.floor_eq_iff]
    push_cast
    exact ⟨by linarith, by linarith⟩
  · rw [show ⌊y + 1 / 2⌋ = ⌊y⌋ + 1 from Int.floor_eq_iff.mpr
      ⟨by push_cast; linarith, by push_cast; linarith⟩, Int.floor_eq_iff]
    push_cast
    exact ⟨by linarith, by linarith⟩

/-- The number lies in the middle between two numbers with `places` decimal places. -/
def Halfway (places : ℕ) (x : ℚ) : Prop := Int.fract (x * 10 ^ places) = 1 / 2
  deriving Decidable

theorem OnGrid.roundHalfUp_add {g : ℚ} (hg : OnGrid places g) (hx : 0 ≤ x) (h : 0 ≤ g + x) :
    roundHalfUp places (g + x) = g + roundHalfUp places x := by
  obtain ⟨n, rfl⟩ := hg
  have hpow := (pow_ten_pos places).ne'
  rw [roundHalfUp, if_pos h, roundHalfUp, if_pos hx, add_mul, div_mul_cancel₀ _ hpow, add_assoc,
    Int.floor_intCast_add, Int.cast_add, add_div]

theorem OnGrid.roundHalfUp_sub {g : ℚ} (hg : OnGrid places g) (hx : 0 ≤ x) (hle : x ≤ g)
    (hhalf : ¬ Halfway places x) : roundHalfUp places (g - x) = g - roundHalfUp places x := by
  obtain ⟨n, rfl⟩ := hg
  have hpow := (pow_ten_pos places).ne'
  have hfloor : ⌊(n / 10 ^ places - x) * 10 ^ places + 1 / 2⌋ = n - ⌊x * 10 ^ places + 1 / 2⌋ := by
    rw [sub_mul, div_mul_cancel₀ _ hpow, sub_add_eq_add_sub, add_sub_assoc,
      Int.floor_intCast_add, floor_half_sub hhalf, sub_eq_add_neg]
  rw [roundHalfUp, if_pos (sub_nonneg.mpr hle), roundHalfUp, if_pos hx, hfloor, Int.cast_sub,
    sub_div]

theorem onGrid_roundHalfUp (places : ℕ) (x : ℚ) : OnGrid places (roundHalfUp places x) := by
  unfold roundHalfUp
  split_ifs
  · exact ⟨_, rfl⟩
  · exact OnGrid.neg ⟨_, rfl⟩

theorem roundHalfUp_nonneg (hx : 0 ≤ x) : 0 ≤ roundHalfUp places x := by
  rw [roundHalfUp, if_pos hx]
  positivity

instance (places : ℕ) (x : ℚ) : Decidable (OnGrid places x) :=
  decidable_of_iff (roundDown places x = x) onGrid_iff_roundDown_eq.symm

theorem OnGrid.add_places (hx : OnGrid places x) (more : ℕ) : OnGrid (places + more) x := by
  obtain ⟨n, rfl⟩ := hx
  use n * 10 ^ more
  push_cast
  rw [pow_add]
  field_simp

theorem OnGrid.of_le {places' : ℕ} (hx : OnGrid places x) (h : places ≤ places') :
    OnGrid places' x := by
  obtain ⟨more, rfl⟩ := Nat.exists_eq_add_of_le h
  exact hx.add_places more

end Decimal
