import Mathlib.Algebra.Order.Group.MinMax
import Mathlib.Tactic

/-!
# Greedy filling of a demand from a list of offers

A demand `r` is met from a list of offers in order: each offer `a` gives `min r (cap a)`, and the
filling ends when nothing is left to meet or the offers run out.
-/

namespace GreedyFill

open List

variable {α Q : Type*} [AddCommGroup Q] [LinearOrder Q]

/-- The offers used for the demand `r`, in order, each with what it gave. -/
def fills (cap : α → Q) : Q → List α → List (α × Q)
  | _, [] => []
  | r, a :: l =>
    if 0 < r then (a, min r (cap a)) :: fills cap (r - min r (cap a)) l else []

/-- The part of the demand `r` that the offers cannot meet. -/
def leftover (cap : α → Q) : Q → List α → Q
  | r, [] => r
  | r, a :: l => if 0 < r then leftover cap (r - min r (cap a)) l else r

@[simp] theorem fills_nil (cap : α → Q) (r : Q) : fills cap r [] = [] := rfl

@[simp] theorem leftover_nil (cap : α → Q) (r : Q) : leftover cap r [] = r := rfl

variable {r : Q} {l : List α} {cap : α → Q}

theorem fills_of_nonpos (cap : α → Q) (hr : ¬ 0 < r) (l : List α) : fills cap r l = [] := by
  cases l with
  | nil => rfl
  | cons a l => rw [fills, if_neg hr]

theorem leftover_of_nonpos (cap : α → Q) (hr : ¬ 0 < r) (l : List α) : leftover cap r l = r := by
  cases l with
  | nil => rfl
  | cons a l => rw [leftover, if_neg hr]

theorem fills_cons (cap : α → Q) (hr : 0 < r) (a : α) (l : List α) :
    fills cap r (a :: l) = (a, min r (cap a)) :: fills cap (r - min r (cap a)) l := by
  rw [fills, if_pos hr]

theorem leftover_cons (cap : α → Q) (hr : 0 < r) (a : α) (l : List α) :
    leftover cap r (a :: l) = leftover cap (r - min r (cap a)) l := by
  rw [leftover, if_pos hr]

theorem fills_prefix (cap : α → Q) (r : Q) (l : List α) : (fills cap r l).map Prod.fst <+: l := by
  induction l generalizing r with
  | nil => simp
  | cons a l ih =>
    by_cases hr : 0 < r
    · rw [fills_cons cap hr, map_cons]
      exact cons_prefix_cons.mpr ⟨rfl, ih _⟩
    · rw [fills_of_nonpos cap hr]
      exact nil_prefix

theorem sum_fills_add_leftover (cap : α → Q) (r : Q) (l : List α) :
    ((fills cap r l).map Prod.snd).sum + leftover cap r l = r := by
  induction l generalizing r with
  | nil => simp
  | cons a l ih =>
    by_cases hr : 0 < r
    · rw [fills_cons cap hr, leftover_cons cap hr, map_cons, sum_cons,
        add_assoc, ih]
      exact add_sub_cancel _ _
    · rw [fills_of_nonpos cap hr, leftover_of_nonpos cap hr]
      simp

theorem fills_pos (hcap : ∀ a ∈ l, 0 < cap a) (r : Q) :
    ∀ f ∈ fills cap r l, 0 < f.2 ∧ f.2 ≤ cap f.1 := by
  induction l generalizing r with
  | nil => simp
  | cons a l ih =>
    by_cases hr : 0 < r
    · intro f hf
      rw [fills_cons cap hr] at hf
      rcases mem_cons.mp hf with rfl | hf
      · exact ⟨lt_min hr (hcap a (by simp)), min_le_right _ _⟩
      · exact ih (fun b hb => hcap b (by simp [hb])) _ f hf
    · rw [fills_of_nonpos cap hr]
      simp

variable [IsOrderedAddMonoid Q]

theorem leftover_nonneg (hr : 0 ≤ r) (l : List α) : 0 ≤ leftover cap r l := by
  induction l generalizing r with
  | nil => exact hr
  | cons a l ih =>
    by_cases h : 0 < r
    · rw [leftover_cons cap h]
      exact ih (sub_nonneg.mpr (min_le_left _ _))
    · rw [leftover_of_nonpos cap h]
      exact hr

theorem full_of_append {pre post : List (α × Q)} {f g : α × Q}
    (h : fills cap r l = pre ++ f :: g :: post) : f.2 = cap f.1 := by
  induction l generalizing r pre with
  | nil =>
    rw [fills_nil] at h
    exact absurd h (by simp)
  | cons a l ih =>
    by_cases hr : 0 < r
    · rw [fills_cons cap hr] at h
      cases pre with
      | nil =>
        obtain ⟨rfl, hrest⟩ := List.cons.inj h
        -- a second fill means that a part of the demand was still open
        have hopen : 0 < r - min r (cap a) := by
          by_contra hle
          rw [fills_of_nonpos cap hle] at hrest
          cases hrest
        exact min_eq_right (not_le.mp (inf_lt_left.mp (sub_pos.mp hopen))).le
      | cons b pre =>
        obtain ⟨rfl, hrest⟩ := List.cons.inj h
        exact ih hrest
    · rw [fills_of_nonpos cap hr] at h
      exact absurd h (by simp)

theorem full_of_mem_append {pre post : List (α × Q)} {g : α × Q}
    (h : fills cap r l = pre ++ g :: post) : ∀ f ∈ pre, f.2 = cap f.1 := by
  intro f hf
  obtain ⟨a, b, rfl⟩ := append_of_mem hf
  cases b with
  | nil => exact full_of_append (h.trans (append_assoc a [f] (g :: post)))
  | cons f' b => exact full_of_append (h.trans (append_assoc a (f :: f' :: b) (g :: post)))

/-- A part of the demand stays open only if every offer was used up. -/
theorem fills_of_leftover_pos (h : 0 < leftover cap r l) :
    fills cap r l = l.map fun a => (a, cap a) := by
  induction l generalizing r with
  | nil => rfl
  | cons a l ih =>
    by_cases hr : 0 < r
    · rw [leftover_cons cap hr] at h
      have hopen : 0 < r - min r (cap a) := by
        by_contra hle
        rw [leftover_of_nonpos cap hle] at h
        exact hle h
      have hfull : min r (cap a) = cap a :=
        min_eq_right (not_le.mp (inf_lt_left.mp (sub_pos.mp hopen))).le
      rw [fills_cons cap hr, ih h, hfull, map_cons]
    · rw [leftover_of_nonpos cap hr] at h
      exact absurd h hr

end GreedyFill
