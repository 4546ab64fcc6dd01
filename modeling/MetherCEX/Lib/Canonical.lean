import Mathlib.Data.List.Sort
import Mathlib.Order.Basic
import Mathlib.Tactic

/-!
# Canonical orders

An object is a list of fields with distinct keys. Its canonical form lists the keys in order, each
with its value; two objects have the same canonical form exactly if they have the same fields
(`canonical_eq_iff`).
-/

namespace Canonical

open List

section Sorted

variable {α : Type*} [LinearOrder α]

theorem eq_insertionSort_iff {xs ys : List α} (h : xs.Perm ys) :
    xs = ys.insertionSort (· ≤ ·) ↔ xs.Pairwise (· ≤ ·) := by
  constructor
  · rintro rfl
    exact ys.pairwise_insertionSort _
  · intro hsorted
    exact (h.trans (ys.perm_insertionSort _).symm).eq_of_pairwise
      (fun _ _ _ _ => le_antisymm) hsorted (ys.pairwise_insertionSort _)

end Sorted

section Objects

variable {κ β : Type*} [LinearOrder κ]

def get? (o : List (κ × β)) (k : κ) : Option β := (o.find? fun x => x.1 = k).map Prod.snd

variable {o o' : List (κ × β)} {k : κ}

theorem get?_of_mem (hkeys : (o.map Prod.fst).Nodup) {v : β} (h : (k, v) ∈ o) :
    get? o k = some v := by
  induction o with
  | nil => cases h
  | cons x o ih =>
    rw [map_cons, nodup_cons] at hkeys
    rcases mem_cons.mp h with rfl | hmem
    · simp [get?]
    · have hne : x.1 ≠ k := by
        rintro rfl
        exact hkeys.1 (mem_map.mpr ⟨_, hmem, rfl⟩)
      have hrest := ih hkeys.2 hmem
      simpa [get?, find?_cons, hne] using hrest

def canonical (o : List (κ × β)) : List (κ × Option β) :=
  ((o.map Prod.fst).insertionSort (· ≤ ·)).map fun k => (k, get? o k)

theorem canonical_perm (hkeys : (o.map Prod.fst).Nodup) :
    (canonical o).Perm (o.map fun x => (x.1, some x.2)) := by
  have hfields : (o.map Prod.fst).map (fun k => (k, get? o k)) =
      o.map fun x => (x.1, some x.2) := by
    rw [map_map]
    exact map_congr_left fun x hx => by rw [Function.comp_apply, get?_of_mem hkeys hx]
  rw [← hfields]
  exact (perm_insertionSort _ _).map _

theorem get?_perm (hkeys : (o.map Prod.fst).Nodup) (h : o.Perm o') (hk : k ∈ o.map Prod.fst) :
    get? o k = get? o' k := by
  obtain ⟨x, hx, rfl⟩ := mem_map.mp hk
  have hkeys' : (o'.map Prod.fst).Nodup := (h.map Prod.fst).nodup_iff.mp hkeys
  rw [get?_of_mem hkeys hx, get?_of_mem hkeys' (h.mem_iff.mp hx)]

/-- Two objects have the same canonical form exactly if they have the same fields. -/
theorem canonical_eq_iff (hkeys : (o.map Prod.fst).Nodup) (hkeys' : (o'.map Prod.fst).Nodup) :
    canonical o = canonical o' ↔ o.Perm o' := by
  constructor
  · intro h
    have hperm : (o.map fun x => (x.1, some x.2)).Perm (o'.map fun x => (x.1, some x.2)) :=
      (canonical_perm hkeys).symm.trans (h ▸ canonical_perm hkeys')
    refine (map_perm_map_iff ?_).mp hperm
    rintro ⟨k, v⟩ ⟨k', v'⟩ heq
    simpa using heq
  · intro h
    have hsorted : (o.map Prod.fst).insertionSort (· ≤ ·) =
        (o'.map Prod.fst).insertionSort (· ≤ ·) := by
      rw [eq_insertionSort_iff ((perm_insertionSort _ _).trans (h.map Prod.fst))]
      exact pairwise_insertionSort _ _
    rw [canonical, canonical, ← hsorted]
    refine map_congr_left fun k hk => ?_
    rw [get?_perm hkeys h ((perm_insertionSort _ _).mem_iff.mp hk)]

end Objects

end Canonical
