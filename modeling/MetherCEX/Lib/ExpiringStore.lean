import Mathlib.Data.List.Basic
import Mathlib.Logic.Function.Basic

/-!
# A store whose keys expire

A store with an atomic "set if absent" that gives the new key a time to live. A key may vanish at
any moment from its expiry on and not before.
-/

/-- The value under a key, and the time from which the key may vanish. -/
structure ExpiringStore.Entry (V : Type*) where
  value : V
  expiresAt : ℕ
  deriving DecidableEq

structure ExpiringStore (K V : Type*) where
  find? : K → Option (ExpiringStore.Entry V)

namespace ExpiringStore

open Function

variable {K V : Type*}

def empty : ExpiringStore K V := ⟨fun _ => none⟩

def Held (s : ExpiringStore K V) (now ttl : ℕ) (grants : List (K × ℕ)) : Prop :=
  ∀ g ∈ grants, now < g.2 + ttl → ∃ e, s.find? g.1 = some e ∧ g.2 + ttl ≤ e.expiresAt

variable {now ttl : ℕ} {s : ExpiringStore K V}

theorem held_nil : Held s now ttl [] := by
  intro g hg
  cases hg

theorem Held.wait {grants : List (K × ℕ)} (h : Held s now ttl grants) (d : ℕ) :
    Held s (now + d) ttl grants := by
  intro g hg hlt
  apply h g hg
  omega

theorem Held.expired_of_absent {grants : List (K × ℕ)} (h : Held s now ttl grants) {k : K}
    (hk : s.find? k = none) {t : ℕ} (ht : (k, t) ∈ grants) : t + ttl ≤ now := by
  by_contra hlt
  obtain ⟨e, he, -⟩ := h (k, t) ht (by omega)
  simp [hk] at he

variable [DecidableEq K]

/-- Set the key if it is absent, with the time to live; whether it was set. -/
def setNx (s : ExpiringStore K V) (now ttl : ℕ) (k : K) (v : V) : ExpiringStore K V × Bool :=
  match s.find? k with
  | some _ => (s, false)
  | none => (⟨update s.find? k (some ⟨v, now + ttl⟩)⟩, true)

def vanish (s : ExpiringStore K V) (now : ℕ) (k : K) : ExpiringStore K V :=
  match s.find? k with
  | some e => if e.expiresAt ≤ now then ⟨update s.find? k none⟩ else s
  | none => s

section Held

variable {s : ExpiringStore K V} {now ttl : ℕ} {grants : List (K × ℕ)}

theorem setNx_of_absent {k : K} {v : V} (h : s.find? k = none) :
    (s.setNx now ttl k v).1 = ⟨update s.find? k (some ⟨v, now + ttl⟩)⟩ := by
  simp [setNx, h]

theorem Held.vanish (h : Held s now ttl grants) (k : K) : Held (s.vanish now k) now ttl grants := by
  intro g hg hlt
  obtain ⟨e, he, hexp⟩ := h g hg hlt
  refine ⟨e, ?_, hexp⟩
  unfold ExpiringStore.vanish
  by_cases hk : g.1 = k
  · -- the key of a live grant is not due yet
    subst hk
    have hdue : ¬ e.expiresAt ≤ now := by omega
    simp [he, hdue]
  · cases hs : s.find? k with
    | none => simpa using he
    | some e' =>
      by_cases hdue : e'.expiresAt ≤ now
      · simp [hdue, update_of_ne hk, he]
      · simp [hdue, he]

theorem Held.grant (h : Held s now ttl grants) {k : K} {v : V} (hk : s.find? k = none) :
    Held (s.setNx now ttl k v).1 now ttl ((k, now) :: grants) := by
  intro g hg hlt
  rw [setNx_of_absent hk]
  rcases List.mem_cons.mp hg with rfl | hg
  · exact ⟨⟨v, now + ttl⟩, update_self .., Nat.le_refl _⟩
  · obtain ⟨e, he, hexp⟩ := h g hg hlt
    have hne : g.1 ≠ k := by
      intro heq
      rw [heq, hk] at he
      cases he
    exact ⟨e, by simp [update_of_ne hne, he], hexp⟩

end Held

end ExpiringStore
