import Mathlib.Data.List.Basic

/-!
# Exclusive locks

A table of exclusive locks that transactions hold on resources until they end. A
transaction can take a list of locks when nobody else holds one of them; it keeps the
locks it has. When it ends, all its locks are gone at once.
-/

abbrev LockTable (κ π : Type*) := κ → Option π

namespace LockTable

variable {κ π : Type*} (t : LockTable κ π) (p q : π)

def CanTake (ks : List κ) : Prop := ∀ k ∈ ks, t k = none ∨ t k = some p

instance [DecidableEq π] (ks : List κ) : Decidable (t.CanTake p ks) :=
  inferInstanceAs (Decidable (∀ k ∈ ks, t k = none ∨ t k = some p))

def take [DecidableEq κ] (ks : List κ) : LockTable κ π :=
  fun k => if k ∈ ks then some p else t k

def release [DecidableEq π] : LockTable κ π := fun k => if t k = some p then none else t k

variable {t p q}

theorem take_of_mem [DecidableEq κ] {ks : List κ} {k : κ} (h : k ∈ ks) : t.take p ks k = some p :=
  if_pos h

theorem take_eq_some [DecidableEq κ] {ks : List κ} {k : κ} (hfree : t.CanTake p ks)
    (h : t k = some q) : t.take p ks k = some q := by
  by_cases hk : k ∈ ks
  · rw [take_of_mem hk]
    rcases hfree k hk with h' | h'
    · rw [h'] at h
      cases h
    · rw [← h', h]
  · rw [take, if_neg hk, h]

theorem take_cases [DecidableEq κ] {ks : List κ} {k : κ} (h : t.take p ks k = some q) :
    (k ∈ ks ∧ q = p) ∨ t k = some q := by
  by_cases hk : k ∈ ks
  · rw [take_of_mem hk] at h
    cases h
    exact .inl ⟨hk, rfl⟩
  · rw [take, if_neg hk] at h
    exact .inr h

theorem eq_some_of_release [DecidableEq π] {k : κ} (h : t.release p k = some q) : t k = some q := by
  by_cases hk : t k = some p
  · rw [release, if_pos hk] at h
    cases h
  · rwa [release, if_neg hk] at h

theorem release_eq_some [DecidableEq π] {k : κ} (h : t k = some q) (hq : q ≠ p) :
    t.release p k = some q := by
  rw [release, h, if_neg]
  intro h'
  cases h'
  exact hq rfl

end LockTable
