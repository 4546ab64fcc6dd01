import MetherCEX.Lib.SortedMap

/-!
# Ordered maps of the largest keys

A map of bounded size takes new keys and drops its smallest ones: after any calls it is the map of
the first calls of all keys, cut to the bound.
-/

namespace SortedMap

open List

variable {K V : Type*} [LinearOrder K] {m : SortedMap K V} {l : List (K × V)} {k : K}

/-- Enters a new key; a key that is there keeps its value. -/
def insertFirst (m : SortedMap K V) (c : K × V) : SortedMap K V :=
  match m.get? c.1 with
  | some _ => m
  | none => m.insert c.1 c.2

/-- The map of its `bound` largest keys. -/
def cut (m : SortedMap K V) (bound : ℕ) : SortedMap K V := m.drop (m.entries.length - bound)

/-- Enters a new key into a map of bounded size. -/
def insertNewest (bound : ℕ) (m : SortedMap K V) (c : K × V) : SortedMap K V :=
  match m.get? c.1 with
  | some _ => m
  | none => (m.insert c.1 c.2).cut bound

/-- The map of the first calls has the first value of every key. -/
theorem get?_foldl_insertFirst (calls : List (K × V)) : ∀ k,
    (calls.foldl insertFirst empty).get? k = (calls.find? fun c => c.1 = k).map Prod.snd := by
  induction calls using List.reverseRecOn with
  | nil => exact fun _ => rfl
  | append_singleton calls c ih =>
    intro k
    rw [foldl_append, find?_append, foldl_cons, foldl_nil, insertFirst]
    by_cases hk : c.1 = k
    · subst hk
      cases hget : (calls.foldl insertFirst empty).get? c.1 with
      | none =>
        have hnone := Option.map_eq_none_iff.mp ((ih c.1).symm.trans hget)
        simp [hnone]
      | some v =>
        obtain ⟨c', hfind, -⟩ := Option.map_eq_some_iff.mp ((ih c.1).symm.trans hget)
        simpa [hfind] using ih c.1
    · have hfind : [c].find? (fun c => c.1 = k) = none := by simp [hk]
      rw [hfind, Option.or_none, ← ih k]
      split
      · rfl
      · exact get?_insert_of_ne _ _ (Ne.symm hk)

theorem insertEntry_of_lt (h : ∀ e ∈ l, k < e.1) (v : V) : insertEntry k v l = (k, v) :: l := by
  cases l with
  | nil => rfl
  | cons e l => rw [insertEntry, if_pos (h e mem_cons_self)]

theorem drop_insertEntry (hl : l.Pairwise fun a b => a.1 < b.1) (hk : ∀ e ∈ l, e.1 ≠ k) (v : V)
    (n : ℕ) : (insertEntry k v l).drop (n + 1) = (insertEntry k v (l.drop n)).drop 1 := by
  induction l generalizing n with
  | nil => simp [insertEntry]
  | cons a l ih =>
    obtain ⟨ha, hl⟩ := pairwise_cons.mp hl
    cases n with
    | zero => rfl
    | succ n =>
      rw [insertEntry, drop_succ_cons (i := n)]
      split_ifs with hlt heq
      · -- the key is smaller than all others, and is dropped on both sides
        rw [insertEntry_of_lt fun e he => hlt.trans (ha e (List.mem_of_mem_drop he))]
        rfl
      · exact absurd heq.symm (hk a mem_cons_self)
      · exact ih hl (fun e he => hk e (mem_cons_of_mem _ he)) n

theorem cut_of_length_le {bound : ℕ} (h : m.entries.length ≤ bound) : m.cut bound = m := by
  rw [cut, Nat.sub_eq_zero_of_le h, drop_zero]

theorem length_insert (h : k ∉ m.keys) (v : V) :
    (m.insert k v).entries.length = m.entries.length + 1 := by
  rw [(insert_perm m k v).length_eq, remove_of_not_mem h, length_cons]

theorem insertNewest_cut (m : SortedMap K V) (bound : ℕ) (c : K × V) :
    insertNewest bound (m.cut bound) c = (m.insertFirst c).cut bound := by
  rcases le_or_gt m.entries.length bound with hle | hlt
  · rw [cut_of_length_le hle, insertNewest, insertFirst]
    split
    · exact (cut_of_length_le hle).symm
    · rfl
  have hfull : (m.cut bound).entries.length = bound :=
    length_drop.trans (Nat.sub_sub_self hlt.le)
  have hsplit := take_append_drop (m.entries.length - bound) m.entries
  rw [insertNewest, insertFirst]
  cases hget : m.get? c.1 with
  | none =>
    have hkey := get?_eq_none.mp hget
    have hcut : c.1 ∉ (m.cut bound).keys := fun h => hkey (((drop_sublist _ _).map _).mem h)
    simp only [get?_eq_none.mpr hcut]
    apply ext
    change (insertEntry _ _ _).drop (((m.cut bound).insert c.1 c.2).entries.length - bound) =
      (insertEntry _ _ _).drop ((m.insert c.1 c.2).entries.length - bound)
    rw [length_insert hcut, length_insert hkey, hfull, Nat.add_sub_cancel_left,
      Nat.sub_add_comm hlt.le]
    refine (drop_insertEntry m.sorted (fun e he heq => hkey ?_) c.2 _).symm
    exact heq ▸ mem_map_of_mem he
  | some v =>
    cases hcut : (m.cut bound).get? c.1 with
    | some => rfl
    | none =>
      -- the key was dropped before, so it is smaller than those that are held
      have hmem := get?_eq_some.mp hget
      have hsorted := m.sorted
      rw [← hsplit] at hmem hsorted
      have htake := (mem_append.mp hmem).resolve_right fun h =>
        get?_eq_none.mp hcut (mem_map.mpr ⟨_, h, rfl⟩)
      have hsmaller : ∀ e ∈ (m.cut bound).entries, c.1 < e.1 :=
        fun e he => (pairwise_append.mp hsorted).2.2 (c.1, v) htake e he
      apply ext
      change (insertEntry c.1 c.2 (m.cut bound).entries).drop (length (insertEntry ..) - bound) = _
      rw [insertEntry_of_lt hsmaller, length_cons, hfull, Nat.add_sub_cancel_left]
      rfl

theorem foldl_insertNewest (bound : ℕ) (calls : List (K × V)) :
    calls.foldl (insertNewest bound) empty = (calls.foldl insertFirst empty).cut bound := by
  induction calls using List.reverseRecOn with
  | nil => exact (cut_of_length_le (Nat.zero_le bound)).symm
  | append_singleton calls c ih =>
    rw [foldl_append, foldl_append, ih]
    exact insertNewest_cut _ bound c

end SortedMap
