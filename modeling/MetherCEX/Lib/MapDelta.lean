import Mathlib.Data.List.AList
import Mathlib.Data.List.Dedup

/-!
# Differences of maps

`diff prev next` lists the keys under which two maps have different values, with the value of the
second map; a key that is absent counts as zero.
-/

namespace MapDelta

variable {κ M : Type*} [DecidableEq κ]

section Patch

variable (gone : M → Prop)

def Present (m : AList fun _ : κ => M) : Prop := ∀ k v, m.lookup k = some v → ¬ gone v

variable [DecidablePred gone]

def patchOne (m : AList fun _ : κ => M) (x : κ × M) : AList fun _ : κ => M :=
  if gone x.2 then m.erase x.1 else m.insert x.1 x.2

def patch (m : AList fun _ : κ => M) (d : List (κ × M)) : AList fun _ : κ => M :=
  d.foldl (patchOne gone) m

variable {gone} {next m : AList fun _ : κ => M}

theorem lookup_patchOne_of_ne {x : κ × M} {k : κ} (h : k ≠ x.1) :
    (patchOne gone m x).lookup k = m.lookup k := by
  rw [patchOne]
  split_ifs
  · exact AList.lookup_erase_ne h
  · exact AList.lookup_insert_ne h

variable [Zero M]

theorem lookup_patchOne_self (hgone : gone 0) (hnext : Present gone next) {x : κ × M}
    (hx : x.2 = (next.lookup x.1).getD 0) : (patchOne gone m x).lookup x.1 = next.lookup x.1 := by
  rw [patchOne]
  cases hn : next.lookup x.1 with
  | none =>
    rw [hn] at hx
    rw [if_pos (hx ▸ hgone), AList.lookup_erase]
  | some v =>
    have hx : x.2 = v := by rwa [hn] at hx
    rw [hx, if_neg (hnext x.1 v hn), AList.lookup_insert]

/-- A list of entries with the values of a map makes every key right that is in the list or was
right before. -/
theorem lookup_patch (hgone : gone 0) (hnext : Present gone next) {d : List (κ × M)}
    (hd : ∀ x ∈ d, x.2 = (next.lookup x.1).getD 0) (hcover : ∀ k, m.lookup k = next.lookup k ∨
    ∃ x ∈ d, x.1 = k) (k : κ) : (patch gone m d).lookup k = next.lookup k := by
  induction d generalizing m with
  | nil =>
    rcases hcover k with hk | ⟨x, hx, -⟩
    · exact hk
    · exact nomatch hx
  | cons x d ih =>
    rw [patch, List.foldl_cons]
    apply ih fun y hy => hd y (List.mem_cons_of_mem x hy)
    intro k'
    by_cases hk' : k' = x.1
    · subst hk'
      exact .inl (lookup_patchOne_self hgone hnext (hd x List.mem_cons_self))
    · rw [lookup_patchOne_of_ne hk']
      rcases hcover k' with hright | ⟨y, hy, rfl⟩
      · exact .inl hright
      · rcases List.mem_cons.mp hy with rfl | hy
        · exact absurd rfl hk'
        · exact .inr ⟨y, hy, rfl⟩

end Patch

section Diff

variable [Zero M]

theorem lookup_eq_of_getD_eq {gone : M → Prop} {prev next : AList fun _ : κ => M}
    (hgone : gone 0) (hprev : Present gone prev) (hnext : Present gone next) {k : κ}
    (h : (prev.lookup k).getD 0 = (next.lookup k).getD 0) : prev.lookup k = next.lookup k := by
  cases hp : prev.lookup k with
  | none =>
    cases hn : next.lookup k with
    | none => rfl
    | some b =>
      have h : 0 = b := by rwa [hp, hn] at h
      exact absurd (h ▸ hgone) (hnext k b hn)
  | some a =>
    cases hn : next.lookup k with
    | none =>
      have h : a = 0 := by rwa [hp, hn] at h
      exact absurd (h ▸ hgone) (hprev k a hp)
    | some b =>
      rw [hp, hn] at h
      exact congrArg some h

variable [DecidableEq M]

/-- The keys under which the maps differ, with the value of the second one. -/
def diff (prev next : AList fun _ : κ => M) : List (κ × M) :=
  (prev.keys ++ next.keys).dedup.filterMap fun k =>
    let a := (prev.lookup k).getD 0
    let b := (next.lookup k).getD 0
    if a ≠ b then some (k, b) else none

variable {prev next m : AList fun _ : κ => M}

theorem mem_diff {x : κ × M} : x ∈ diff prev next ↔
    (prev.lookup x.1).getD 0 ≠ (next.lookup x.1).getD 0 ∧ x.2 = (next.lookup x.1).getD 0 := by
  obtain ⟨k, v⟩ := x
  simp only [diff, List.mem_filterMap, List.mem_dedup, List.mem_append]
  constructor
  · rintro ⟨k', -, hk'⟩
    split_ifs at hk' with hne
    obtain ⟨rfl, rfl⟩ := Prod.mk.inj (Option.some.inj hk')
    exact ⟨hne, rfl⟩
  · rintro ⟨hne, rfl⟩
    refine ⟨k, ?_, if_pos hne⟩
    -- a key that is in neither map has the value zero in both
    by_contra hkeys
    obtain ⟨hprev, hnext⟩ := not_or.mp hkeys
    apply hne
    rw [AList.lookup_eq_none.mpr hprev, AList.lookup_eq_none.mpr hnext]

variable {gone : M → Prop}

theorem lookup_eq_of_diff_eq_nil (hgone : gone 0) (hprev : Present gone prev) (hnext :
    Present gone next) (h : diff prev next = []) (k : κ) : prev.lookup k = next.lookup k := by
  apply lookup_eq_of_getD_eq hgone hprev hnext
  by_contra hne
  have hmem : (k, (next.lookup k).getD 0) ∈ diff prev next := mem_diff.mpr ⟨hne, rfl⟩
  rw [h] at hmem
  exact List.not_mem_nil hmem

/-- A map with the entries of `prev` has those of `next` after the difference is put in. -/
theorem lookup_patch_diff [DecidablePred gone] (hgone : gone 0) (hprev : Present gone prev)
    (hnext : Present gone next) (hm : ∀ k, m.lookup k = prev.lookup k) (k : κ) :
    (patch gone m (diff prev next)).lookup k = next.lookup k := by
  apply lookup_patch hgone hnext
  · exact fun x hx => (mem_diff.mp hx).2
  · intro k'
    by_cases hne : (prev.lookup k').getD 0 = (next.lookup k').getD 0
    · exact .inl ((hm k').trans (lookup_eq_of_getD_eq hgone hprev hnext hne))
    · exact .inr ⟨(k', (next.lookup k').getD 0), mem_diff.mpr ⟨hne, rfl⟩, rfl⟩

end Diff

end MapDelta
