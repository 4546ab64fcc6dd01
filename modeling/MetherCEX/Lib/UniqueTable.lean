import Mathlib.Algebra.Order.BigOperators.Group.List

/-!
# A table with a unique key

A row is inserted unless there is a row with its key (`INSERT … ON CONFLICT DO NOTHING`).
-/

namespace UniqueTable

open List

variable {α κ : Type*} [DecidableEq κ] {key : α → κ} {rows l : List α} {r : α}

def insertNew (key : α → κ) (rows : List α) (r : α) : List α :=
  if key r ∈ rows.map key then rows else rows ++ [r]

def insertAll (key : α → κ) (rows l : List α) : List α := l.foldl (insertNew key) rows

theorem insertAll_cons : insertAll key rows (r :: l) = insertAll key (insertNew key rows r) l := rfl

theorem insertAll_of_nodup (hnodup : (l.map key).Nodup) (hnew : ∀ r ∈ l, key r ∉ rows.map key) :
    insertAll key rows l = rows ++ l := by
  induction l generalizing rows with
  | nil => exact (append_nil rows).symm
  | cons r l ih =>
    rw [map_cons, nodup_cons] at hnodup
    rw [insertAll_cons, insertNew, if_neg (hnew r mem_cons_self), ih hnodup.2, append_assoc,
      singleton_append]
    intro x hx
    rw [map_append, mem_append, not_or, map_singleton, mem_singleton]
    exact ⟨hnew x (mem_cons_of_mem r hx), fun heq => hnodup.1 (heq ▸ mem_map_of_mem hx)⟩

theorem insertAll_of_mem (h : ∀ r ∈ l, key r ∈ rows.map key) : insertAll key rows l = rows := by
  induction l with
  | nil => rfl
  | cons r l ih =>
    rw [insertAll_cons, insertNew, if_pos (h r mem_cons_self)]
    exact ih fun x hx => h x (mem_cons_of_mem r hx)

theorem subset_insertNew : rows ⊆ insertNew key rows r := by
  unfold insertNew
  split_ifs
  · exact Subset.refl rows
  · exact subset_append_left rows [r]

theorem subset_insertAll : rows ⊆ insertAll key rows l := by
  induction l generalizing rows with
  | nil => exact Subset.refl rows
  | cons r l ih => exact Subset.trans subset_insertNew ih

theorem key_mem_insertAll (h : r ∈ l) : key r ∈ (insertAll key rows l).map key := by
  induction l generalizing rows with
  | nil => cases h
  | cons x l ih =>
    rcases mem_cons.mp h with rfl | h
    · refine map_subset key (@subset_insertAll _ _ _ key (insertNew key rows r) l) ?_
      unfold insertNew
      split_ifs with hmem
      · exact hmem
      · exact mem_map_of_mem (mem_append_right rows mem_cons_self)
    · exact ih h

section Sums

variable {M : Type*} [AddCommGroup M] [LinearOrder M] [IsOrderedAddMonoid M]

theorem sum_insertAll_le {f : α → M} (hf : ∀ r ∈ l, 0 ≤ f r) :
    ((insertAll key rows l).map f).sum ≤ (rows.map f).sum + (l.map f).sum := by
  induction l generalizing rows with
  | nil => simp [insertAll]
  | cons r l ih =>
    refine (ih fun x hx => hf x (mem_cons_of_mem r hx)).trans ?_
    rw [map_cons, sum_cons, ← add_assoc]
    refine add_le_add_left ?_ _
    unfold insertNew
    split_ifs
    · exact le_add_of_nonneg_right (hf r mem_cons_self)
    · simp

/-- If no row counts for nothing, and everything that the rows count for has arrived in the table,
then no row was dropped. -/
theorem nodup_of_sum_eq {ι : Type*} {f : ι → α → M} (hf : ∀ i, ∀ r ∈ l, 0 ≤ f i r)
    (hpos : ∀ r ∈ l, ∃ i, 0 < f i r) (hsum : ∀ i, ((insertAll key rows l).map (f i)).sum = (rows.map
    (f i)).sum + (l.map (f i)).sum) : (l.map key).Nodup ∧ ∀ r ∈ l, key r ∉ rows.map key := by
  induction l generalizing rows with
  | nil => exact ⟨nodup_nil, forall_mem_nil _⟩
  | cons r l ih =>
    have hnew : key r ∉ rows.map key := by
      intro hmem
      obtain ⟨i, hi⟩ := hpos r mem_cons_self
      have hle : ((insertAll key rows l).map (f i)).sum ≤ _ :=
        sum_insertAll_le fun x hx => hf i x (mem_cons_of_mem r hx)
      have heq := hsum i
      rw [insertAll_cons, insertNew, if_pos hmem, map_cons, sum_cons] at heq
      rw [heq, ← add_assoc, add_right_comm] at hle
      exact absurd hle (not_le.mpr (lt_add_of_pos_right _ hi))
    obtain ⟨hnodup, hrest⟩ := @ih (rows ++ [r]) (fun i x hx => hf i x (mem_cons_of_mem r hx))
      (fun x hx => hpos x (mem_cons_of_mem r hx)) fun i => by
        have heq := hsum i
        rw [insertAll_cons, insertNew, if_neg hnew, map_cons, sum_cons] at heq
        rw [heq, map_append, sum_append, map_singleton, sum_singleton, add_assoc]
    have hrest : ∀ x ∈ l, key x ∉ rows.map key ∧ key x ≠ key r := fun x hx => by
      have := hrest x hx
      rwa [map_append, mem_append, not_or, map_singleton, mem_singleton] at this
    refine ⟨?_, forall_mem_cons.mpr ⟨hnew, fun x hx => (hrest x hx).1⟩⟩
    rw [map_cons, nodup_cons]
    refine ⟨fun hmem => ?_, hnodup⟩
    obtain ⟨x, hx, heq⟩ := mem_map.mp hmem
    exact (hrest x hx).2 heq

end Sums

end UniqueTable
