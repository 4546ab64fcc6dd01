import Mathlib.Algebra.BigOperators.Finprod
import Mathlib.Algebra.BigOperators.Group.Finset.Piecewise
import Mathlib.Algebra.BigOperators.Group.List.Basic
import Mathlib.Algebra.Order.BigOperators.Group.List
import Mathlib.Data.List.AList
import Mathlib.Tactic.Abel

/-!
# Sums by key

Each entry of a list has a key and a value; `tally` is the sum of the values under one
key. Over a finite set of keys the tallies add up to the values of the entries whose
key is in the set (`sum_tally`).
-/

namespace Tally

open List

variable {ε κ M : Type*} [DecidableEq κ] [AddCommMonoid M] (key : ε → κ) (value : ε → M)

/-- The sum of the values of the entries with key `k`. -/
def tally (es : List ε) (k : κ) : M := ((es.filter (fun e => key e = k)).map value).sum

@[simp] theorem tally_nil (k : κ) : tally key value [] k = 0 := rfl

theorem tally_cons (e : ε) (es : List ε) (k : κ) :
    tally key value (e :: es) k = (if key e = k then value e else 0) + tally key value es k := by
  by_cases h : key e = k
  · simp [tally, h]
  · simp [tally, h]

theorem tally_append (es es' : List ε) (k : κ) :
    tally key value (es ++ es') k = tally key value es k + tally key value es' k := by
  simp [tally]

theorem tally_map {δ : Type*} (f : δ → ε) (ds : List δ) (k : κ) :
    tally key value (ds.map f) k = tally (key ∘ f) (value ∘ f) ds k := by
  simp only [tally, filter_map, map_map]
  rfl

theorem sum_tally (keys : Finset κ) (es : List ε) :
    ∑ k ∈ keys, tally key value es k = ((es.filter (fun e => key e ∈ keys)).map value).sum := by
  induction es with
  | nil => simp
  | cons e es ih =>
    simp only [tally_cons, Finset.sum_add_distrib, ih, Finset.sum_ite_eq]
    by_cases h : key e ∈ keys
    · simp [h]
    · simp [h]

theorem tally_eq_zero {es : List ε} {k : κ} (h : ∀ e ∈ es, key e ≠ k) :
    tally key value es k = 0 := by
  have hnil : es.filter (fun e => key e = k) = [] :=
    filter_eq_nil_iff.mpr fun e he => by simpa using h e he
  rw [tally, hnil]
  rfl

theorem tally_eq_of_mem {es : List ε} (hkeys : (es.map key).Nodup) {e : ε} (he : e ∈ es) :
    tally key value es (key e) = value e := by
  induction es with
  | nil => cases he
  | cons x es ih =>
    rw [map_cons, nodup_cons] at hkeys
    rw [tally_cons]
    rcases mem_cons.mp he with rfl | he
    · rw [if_pos rfl, tally_eq_zero _ _ fun y hy hkey =>
        hkeys.1 (mem_map.mpr ⟨y, hy, hkey⟩), add_zero]
    · rw [if_neg fun hkey => hkeys.1 (mem_map.mpr ⟨e, he, hkey.symm⟩), zero_add,
        ih hkeys.2 he]

theorem tally_perm {es es' : List ε} (h : es.Perm es') (k : κ) :
    tally key value es k = tally key value es' k :=
  ((h.filter _).map _).sum_eq

theorem tally_set {es : List ε} {i : ℕ} {e : ε} (hget : es[i]? = some e) (e' : ε) (k : κ) :
    tally key value (es.set i e') k + (if key e = k then value e else 0) =
      tally key value es k + (if key e' = k then value e' else 0) := by
  induction es generalizing i with
  | nil => exact absurd hget (by simp)
  | cons x es ih =>
    cases i with
    | zero =>
      obtain rfl : x = e := by simpa using hget
      rw [set_cons_zero, tally_cons, tally_cons]
      abel
    | succ i =>
      rw [getElem?_cons_succ] at hget
      rw [set_cons_succ, tally_cons, tally_cons, add_assoc, ih hget, add_assoc]

section Ordered

variable {N : Type*} [AddCommMonoid N] [PartialOrder N] [IsOrderedAddMonoid N] {val : ε → N}

theorem tally_nonneg {es : List ε} {k : κ} (h : ∀ e ∈ es, key e = k → 0 ≤ val e) :
    0 ≤ tally key val es k := by
  apply sum_nonneg
  intro x hx
  obtain ⟨e, he, rfl⟩ := mem_map.mp hx
  obtain ⟨he, hkey⟩ := mem_filter.mp he
  exact h e he (of_decide_eq_true hkey)

/-- An entry with nonnegative values beside it is at most the sum. -/
theorem value_le_tally {es : List ε} {k : κ} (h : ∀ e ∈ es, key e = k → 0 ≤ val e) {e : ε}
    (he : e ∈ es) (hkey : key e = k) : val e ≤ tally key val es k := by
  apply List.single_le_sum
  · intro x hx
    obtain ⟨e', he', rfl⟩ := mem_map.mp hx
    obtain ⟨he', hkey'⟩ := mem_filter.mp he'
    exact h e' he' (of_decide_eq_true hkey')
  · exact mem_map.mpr ⟨e, mem_filter.mpr ⟨he, decide_eq_true hkey⟩, rfl⟩

end Ordered

theorem hasFiniteSupport_single (key : κ) (a : M) :
    (fun k => if k = key then a else 0).HasFiniteSupport := by
  refine (Set.finite_singleton key).subset fun k hk => ?_
  by_contra hne
  exact hk (if_neg hne)

theorem hasFiniteSupport_add_single {f : κ → M} (hf : f.HasFiniteSupport) (key : κ) (a : M) :
    (fun k => f k + if k = key then a else 0).HasFiniteSupport :=
  hf.add (hasFiniteSupport_single key a)

theorem finsum_mem_add_single
    {S : Set κ} [DecidablePred (· ∈ S)] {f : κ → M} (hf : f.HasFiniteSupport) (key : κ) (a : M) :
    ∑ᶠ k ∈ S, (f k + if k = key then a else 0) = (∑ᶠ k ∈ S, f k) + if key ∈ S then a else 0 := by
  have hsingle := hasFiniteSupport_single key a
  rw [finsum_mem_add_distrib' (hf.inter_of_right S) (hsingle.inter_of_right S),
    finsum_eq_single (fun k => ∑ᶠ _ : k ∈ S, if k = key then a else 0) key
      fun k hk => by simp [hk]]
  by_cases hkey : key ∈ S
  · simp [hkey]
  · simp [hkey]

theorem tally_entries (m : AList fun _ : κ => M) (k : κ) :
    tally Sigma.fst Sigma.snd m.entries k = (m.lookup k).getD 0 := by
  obtain ⟨es, hkeys⟩ := m
  change tally Sigma.fst Sigma.snd es k = (List.dlookup k es).getD 0
  induction es with
  | nil => rfl
  | cons e es ih =>
    obtain ⟨a, b⟩ := e
    obtain ⟨ha, hkeys⟩ := nodupKeys_cons.mp hkeys
    rw [tally_cons]
    by_cases hk : a = k
    · subst hk
      have hrest : tally Sigma.fst Sigma.snd es a = 0 :=
        tally_eq_zero _ _ fun e he heq => ha (mem_map.mpr ⟨e, he, heq⟩)
      rw [if_pos rfl, hrest, add_zero, List.dlookup_cons_eq]
      rfl
    · rw [if_neg hk, zero_add, ih hkeys, List.dlookup_cons_ne _ _ (Ne.symm hk)]

/-- If every class of keys has one key that is used, the sum over a class is the value under
that key. -/
theorem tally_entries_of_unique {γ : Type*} [DecidableEq γ] {m : AList fun _ : κ => M} {cls : κ → γ}
    {canon : γ → κ} (h : ∀ k ∈ m.keys, k = canon (cls k)) (hcanon : ∀ g, cls (canon g) = g)
    (g : γ) : tally (fun e : Sigma fun _ : κ => M => cls e.1) Sigma.snd m.entries g =
    (m.lookup (canon g)).getD 0 := by
  rw [← tally_entries, tally, tally]
  congr 2
  refine filter_congr fun e he => ?_
  have hkey := h e.1 (mem_keys_of_mem he)
  rw [decide_eq_decide]
  constructor
  · rintro rfl
    exact hkey
  · intro heq
    rw [heq, hcanon]

end Tally
