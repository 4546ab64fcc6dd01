import MetherCEX.Lib.GreedyFill

/-!
# The greedy fill is the best allocation

An allocation gives each offer of a list a part of its capacity, at most the demand in total.
-/

namespace GreedyFill

open List Function

variable {α Q : Type*}

/-- `a` gives each offer of `l` a part of its capacity, in total at most the demand
`r`; a negative demand is none. -/
structure Allocation [AddCommGroup Q] [LinearOrder Q] (cap : α → Q) (r : Q) (l : List α)
    (a : α → Q) : Prop where
  nonneg : ∀ x ∈ l, 0 ≤ a x
  le_cap : ∀ x ∈ l, a x ≤ cap x
  sum_le_demand : (l.map a).sum ≤ max r 0

section Total

variable [AddCommGroup Q] [LinearOrder Q]

instance (cap : α → Q) (r : Q) (l : List α) (a : α → Q) :
    Decidable (Allocation cap r l a) :=
  decidable_of_iff
    ((∀ x ∈ l, 0 ≤ a x) ∧ (∀ x ∈ l, a x ≤ cap x) ∧ (l.map a).sum ≤ max r 0)
    ⟨fun h => ⟨h.1, h.2.1, h.2.2⟩, fun h => ⟨h.nonneg, h.le_cap, h.sum_le_demand⟩⟩

variable [IsOrderedAddMonoid Q] {cap : α → Q} {r : Q} {l : List α}

theorem Allocation.sum_le {a : α → Q} (h : Allocation cap r l a) :
    (l.map a).sum ≤ ((fills cap r l).map Prod.snd).sum := by
  by_cases hopen : 0 < leftover cap r l
  · -- something stays open, so every offer is used up
    rw [fills_of_leftover_pos hopen, map_map]
    exact sum_le_sum h.le_cap
  · have htotal := sum_fills_add_leftover cap r l
    by_cases hr : 0 < r
    · have hzero : leftover cap r l = 0 :=
        le_antisymm (not_lt.mp hopen) (leftover_nonneg hr.le l)
      rw [hzero, add_zero] at htotal
      rw [htotal]
      exact h.sum_le_demand.trans (max_eq_left hr.le).le
    · rw [fills_of_nonpos cap hr]
      exact h.sum_le_demand.trans (max_eq_right (not_lt.mp hr)).le

/-- What the greedy fill gives is an allocation: its fills are the offers that get
something, in order. -/
theorem exists_allocation (hcap : ∀ x ∈ l, 0 < cap x) (hl : l.Nodup) (r : Q) : ∃ a, Allocation
    cap r l a ∧ fills cap r l = (l.filter fun x => decide (0 < a x)).map fun x => (x, a x) := by
  classical
  induction l generalizing r with
  | nil => exact ⟨fun _ => 0, ⟨by simp, by simp, by simp⟩, rfl⟩
  | cons x l ih =>
    by_cases hr : 0 < r
    · obtain ⟨hx, hl⟩ := nodup_cons.mp hl
      obtain ⟨a, ha, hfills⟩ := ih (fun y hy => hcap y (mem_cons_of_mem x hy)) hl
        (r - min r (cap x))
      have hx0 := hcap x mem_cons_self
      -- the first offer gets its part, the others what they get of the rest
      set a' := update a x (min r (cap x)) with ha'
      have hself : a' x = min r (cap x) := update_self x _ a
      have hother : ∀ y ∈ l, a' y = a y := fun y hy =>
        update_of_ne (ne_of_mem_of_not_mem hy hx) _ _
      refine ⟨a', ⟨fun y hy => ?_, fun y hy => ?_, ?_⟩, ?_⟩
      · rcases mem_cons.mp hy with rfl | hy
        · exact hself.symm ▸ (lt_min hr hx0).le
        · exact (hother y hy).symm ▸ ha.nonneg y hy
      · rcases mem_cons.mp hy with rfl | hy
        · exact hself.symm ▸ min_le_right _ _
        · exact (hother y hy).symm ▸ ha.le_cap y hy
      · have hrest := ha.sum_le_demand
        rw [max_eq_left (sub_nonneg.mpr (min_le_left r (cap x)))] at hrest
        rw [map_cons, sum_cons, hself, map_congr_left hother,
          max_eq_left hr.le]
        exact (add_le_add_right hrest _).trans (add_sub_cancel _ _).le
      · have hfilter : l.filter (fun y => decide (0 < a' y)) =
            l.filter fun y => decide (0 < a y) :=
          filter_congr fun y hy => by rw [hother y hy]
        have hkeep : 0 < a' x := hself.symm ▸ lt_min hr hx0
        have hgiven : (l.filter fun y => decide (0 < a y)).map (fun y => (y, a y)) =
            (l.filter fun y => decide (0 < a y)).map fun y => (y, a' y) :=
          map_congr_left fun y hy => by rw [hother y (mem_of_mem_filter hy)]
        rw [fills_cons cap hr, hfills, hgiven, filter_cons, if_pos (decide_eq_true hkeep),
          hfilter, map_cons, hself]
    · refine ⟨fun _ => 0, ⟨by simp, fun y hy => (hcap y hy).le, by simp⟩, ?_⟩
      rw [fills_of_nonpos cap hr]
      simp

end Total

section Cost

variable [CommRing Q]

/-- What a list of fills costs when every cost is measured from `θ`. -/
def excess (cost : α → Q) (θ : Q) (fs : List (α × Q)) : Q :=
  (fs.map fun f => (cost f.1 - θ) * f.2).sum

theorem excess_eq (cost : α → Q) (θ : Q) (fs : List (α × Q)) :
    excess cost θ fs = (fs.map fun f => cost f.1 * f.2).sum - θ * (fs.map Prod.snd).sum := by
  induction fs with
  | nil => simp [excess]
  | cons f fs ih =>
    rw [excess, map_cons, sum_cons, ← excess, ih]
    simp only [map_cons, sum_cons]
    ring

variable [LinearOrder Q] [IsStrictOrderedRing Q]
variable {cap cost : α → Q} {r : Q} {l : List α}

theorem excess_nonneg {θ : Q} {fs : List (α × Q)} (hθ : ∀ f ∈ fs, θ ≤ cost f.1)
    (hfs : ∀ f ∈ fs, 0 ≤ f.2) : 0 ≤ excess cost θ fs := by
  refine sum_nonneg fun q hq => ?_
  obtain ⟨f, hf, rfl⟩ := mem_map.mp hq
  exact mul_nonneg (sub_nonneg.mpr (hθ f hf)) (hfs f hf)

/-- There is a cost `θ` such that, measured from it, the greedy fill from offers of increasing cost
is below every allocation. -/
theorem exists_threshold (cap : α → Q) (hsorted : l.Pairwise fun x y => cost x ≤ cost y)
    (r p : Q) (hp : ∀ x ∈ l, p ≤ cost x) : ∃ θ, p ≤ θ ∧
    (θ = p ∨ ∃ x ∈ l, θ = cost x) ∧ ∀ a : α → Q, (∀ x ∈ l, 0 ≤ a x) → (∀ x ∈ l, a x ≤ cap x) →
    excess cost θ (fills cap r l) ≤ excess cost θ (l.map fun x => (x, a x)) := by
  induction l generalizing r p with
  | nil => exact ⟨p, le_rfl, .inl rfl, fun a _ _ => le_rfl⟩
  | cons x l ih =>
    obtain ⟨hx, hl⟩ := pairwise_cons.mp hsorted
    have hpx := hp x mem_cons_self
    have hbound : ∀ y ∈ x :: l, cost x ≤ cost y := by
      intro y hy
      rcases mem_cons.mp hy with rfl | hy
      · exact le_rfl
      · exact hx y hy
    by_cases hr : 0 < r
    · by_cases hfull : cap x < r
      · -- the first offer is used up; the threshold of the others is above its cost
        obtain ⟨θ, hθ, hθmem, hle⟩ := ih hl (r - min r (cap x)) (cost x) hx
        refine ⟨θ, hpx.trans hθ, .inr ?_, fun a ha hacap => ?_⟩
        · rcases hθmem with rfl | ⟨y, hy, rfl⟩
          · exact ⟨x, mem_cons_self, rfl⟩
          · exact ⟨y, mem_cons_of_mem x hy, rfl⟩
        · have htail := hle a (fun y hy => ha y (mem_cons_of_mem x hy))
            fun y hy => hacap y (mem_cons_of_mem x hy)
          have hhead : (cost x - θ) * min r (cap x) ≤ (cost x - θ) * a x := by
            rw [min_eq_right hfull.le]
            exact mul_le_mul_of_nonpos_left (hacap x mem_cons_self)
              (sub_nonpos.mpr hθ)
          rw [fills_cons cap hr]
          exact add_le_add hhead htail
      · -- the first offer meets the whole demand; its cost is the threshold
        have hnone : ¬ 0 < r - min r (cap x) := by
          rw [min_eq_left (not_lt.mp hfull), sub_self]
          exact lt_irrefl 0
        refine ⟨cost x, hpx, .inr ⟨x, mem_cons_self, rfl⟩, fun a ha _ => ?_⟩
        rw [fills_cons cap hr, fills_of_nonpos cap hnone]
        have hzero : excess cost (cost x) [(x, min r (cap x))] = 0 := by simp [excess]
        rw [hzero]
        exact excess_nonneg (by simpa using hbound) (by simpa using ha)
    · refine ⟨p, le_rfl, .inl rfl, fun a ha _ => ?_⟩
      rw [fills_of_nonpos cap hr]
      exact excess_nonneg (by simpa using hp) (by simpa using ha)

/-- The greedy fill costs no more than an allocation, up to the threshold times what the
allocation falls short of it. -/
theorem Allocation.cost_le_add {a : α → Q}
    (h : Allocation cap r l a) (hsorted : l.Pairwise fun x y => cost x ≤ cost y) : l = [] ∨
    ∃ x ∈ l, ((fills cap r l).map fun f => cost f.1 * f.2).sum ≤ (l.map fun x => cost x * a x).sum
    + cost x * (((fills cap r l).map Prod.snd).sum - (l.map a).sum) := by
  cases l with
  | nil => exact .inl rfl
  | cons x l =>
    have hbound : ∀ y ∈ x :: l, cost x ≤ cost y := by
      intro y hy
      rcases mem_cons.mp hy with rfl | hy
      · exact le_rfl
      · exact (pairwise_cons.mp hsorted).1 y hy
    obtain ⟨θ, -, hθ, hle⟩ := exists_threshold cap hsorted r (cost x) hbound
    have hexcess := hle a h.nonneg h.le_cap
    rw [excess_eq, excess_eq, map_map, map_map] at hexcess
    obtain ⟨y, hy, rfl⟩ : ∃ y ∈ x :: l, θ = cost y := by
      rcases hθ with rfl | hθ
      · exact ⟨x, mem_cons_self, rfl⟩
      · exact hθ
    refine .inr ⟨y, hy, ?_⟩
    simp only [comp_def] at hexcess
    linarith

theorem Allocation.cost_le {a : α → Q} (h : Allocation cap r l a) (hsorted : l.Pairwise
    fun x y => cost x ≤ cost y) (hsum : (l.map a).sum = ((fills cap r l).map Prod.snd).sum) :
    ((fills cap r l).map fun f => cost f.1 * f.2).sum ≤ (l.map fun x => cost x * a x).sum := by
  rcases h.cost_le_add hsorted with rfl | ⟨x, -, hle⟩
  · exact le_rfl
  · rw [hsum, sub_self, mul_zero, add_zero] at hle
    exact hle

theorem Allocation.cost_le_of_nonpos {a : α → Q} (h : Allocation cap r l a)
    (hsorted : l.Pairwise fun x y => cost x ≤ cost y) (hcost : ∀ x ∈ l, cost x ≤ 0) :
    ((fills cap r l).map fun f => cost f.1 * f.2).sum ≤ (l.map fun x => cost x * a x).sum := by
  rcases h.cost_le_add hsorted with rfl | ⟨x, hx, hle⟩
  · exact le_rfl
  · have hgap := mul_nonpos_of_nonpos_of_nonneg (hcost x hx) (sub_nonneg.mpr h.sum_le)
    linarith

end Cost

end GreedyFill
