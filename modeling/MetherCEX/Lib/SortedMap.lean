import Mathlib.Data.List.Sort
import Mathlib.Tactic

/-!
# Ordered maps as strictly sorted entry lists

`SortedMap K V` is an ordered map with keys `K`: the list of its entries, together with the proof
that the keys increase strictly.
-/

/-- An ordered map: its entries, with strictly increasing keys. -/
structure SortedMap (K V : Type*) [LinearOrder K] where
  entries : List (K × V)
  sorted : entries.Pairwise fun a b => a.1 < b.1

namespace SortedMap

variable {K V : Type*} [LinearOrder K]

variable {m : SortedMap K V} {v v' : V} {p : V → Bool} {e : K × V} {k : K} {W : Type*}
  {l : List (K × V)}

@[ext] theorem ext {n : SortedMap K V} (h : m.entries = n.entries) : m = n := by
  cases m
  cases n
  cases h
  rfl

def empty : SortedMap K V := ⟨[], List.Pairwise.nil⟩

@[simp] theorem entries_empty : (empty : SortedMap K V).entries = [] := rfl

def values (m : SortedMap K V) : List V := m.entries.map Prod.snd

@[simp] theorem values_empty : (empty : SortedMap K V).values = [] := rfl

theorem mem_values : v ∈ m.values ↔ ∃ k, (k, v) ∈ m.entries := by
  simp [values]

def keys (m : SortedMap K V) : List K := m.entries.map Prod.fst

theorem keys_sorted (m : SortedMap K V) : m.keys.Pairwise (· < ·) := by
  rw [keys, List.pairwise_map]
  exact m.sorted

theorem keys_nodup (m : SortedMap K V) : m.keys.Nodup :=
  m.keys_sorted.imp fun h => h.ne

theorem entries_nodup (m : SortedMap K V) : m.entries.Nodup :=
  List.Nodup.of_map Prod.fst m.keys_nodup

theorem eq_of_mem_of_fst_eq {a b : K × V} (ha : a ∈ m.entries) (hb : b ∈ m.entries)
    (h : a.1 = b.1) : a = b :=
  List.inj_on_of_nodup_map m.keys_nodup ha hb h

theorem ext_of_mem {n : SortedMap K V} (h : ∀ e, e ∈ m.entries ↔ e ∈ n.entries) : m = n := by
  apply ext
  have hperm : m.entries.Perm n.entries :=
    (List.perm_ext_iff_of_nodup m.entries_nodup n.entries_nodup).mpr h
  exact hperm.eq_of_pairwise
    (fun a b _ _ hab hba => absurd hab (not_lt.mpr hba.le)) m.sorted n.sorted

/-- The first entry, in key order, whose value satisfies `p`. -/
def find? (m : SortedMap K V) (p : V → Bool) : Option (K × V) :=
  m.entries.find? fun e => p e.2

theorem mem_of_find?_eq_some (h : m.find? p = some e) : e ∈ m.entries :=
  List.mem_of_find?_eq_some h

theorem find?_some (h : m.find? p = some e) : p e.2 = true := by
  have := List.find?_some h
  exact this

theorem find?_eq_none : m.find? p = none ↔ ∀ v ∈ m.values, p v = false := by
  simp only [find?, List.find?_eq_none, Bool.not_eq_true, mem_values]
  constructor
  · rintro h v ⟨k, hk⟩
    exact h (k, v) hk
  · intro h e he
    exact h e.2 ⟨e.1, he⟩

theorem find?_isSome_of_mem (hv : v ∈ m.values) (hp : p v = true) : ∃ e, m.find? p = some e := by
  cases h : m.find? p with
  | none =>
    have hfalse := find?_eq_none.mp h v hv
    rw [hp] at hfalse
    cases hfalse
  | some e => exact ⟨e, rfl⟩

/-- The entry found is the head of the entries that satisfy the predicate. -/
theorem find?_eq_head? (m : SortedMap K V) (p : V → Bool) :
    m.find? p = (m.entries.filter fun e => p e.2).head? :=
  (List.head?_filter).symm

def get? (m : SortedMap K V) (k : K) : Option V :=
  (m.entries.find? fun e => decide (e.1 = k)).map Prod.snd

theorem get?_eq_some : m.get? k = some v ↔ (k, v) ∈ m.entries := by
  constructor
  · intro h
    obtain ⟨e, he, rfl⟩ := Option.map_eq_some_iff.mp h
    have hk : e.1 = k := by simpa using List.find?_some he
    rw [← hk]
    exact List.mem_of_find?_eq_some he
  · intro h
    cases hf : m.entries.find? fun e => decide (e.1 = k) with
    | none =>
      have hne := List.find?_eq_none.mp hf (k, v) h
      simp at hne
    | some e =>
      have hk : e.1 = k := by simpa using List.find?_some hf
      have heq := eq_of_mem_of_fst_eq (List.mem_of_find?_eq_some hf) h hk
      rw [get?, hf, heq]
      rfl

@[simp] theorem get?_empty (k : K) : (empty : SortedMap K V).get? k = none := rfl

theorem get?_eq_none : m.get? k = none ↔ k ∉ m.keys := by
  rw [Option.eq_none_iff_forall_ne_some]
  constructor
  · intro h hk
    obtain ⟨e, he, rfl⟩ := List.mem_map.mp hk
    exact h e.2 (get?_eq_some.mpr he)
  · intro h v hv
    exact h (List.mem_map_of_mem (f := Prod.fst) (get?_eq_some.mp hv))

/-- The map without the entry of the key `k`. -/
def remove (m : SortedMap K V) (k : K) : SortedMap K V :=
  ⟨m.entries.filter fun e => decide (e.1 ≠ k), m.sorted.filter _⟩

theorem mem_remove : e ∈ (m.remove k).entries ↔ e ∈ m.entries ∧ e.1 ≠ k := by
  simp [remove]

theorem remove_of_not_mem (h : k ∉ m.keys) : m.remove k = m := by
  apply ext_of_mem
  intro e
  rw [mem_remove]
  refine ⟨fun he => he.1, fun he => ⟨he, ?_⟩⟩
  rintro rfl
  exact h (List.mem_map_of_mem he)

theorem perm_cons_remove (he : e ∈ m.entries) : m.entries.Perm (e :: (m.remove e.1).entries) := by
  have hnot : e ∉ (m.remove e.1).entries := by
    intro h
    exact (mem_remove.mp h).2 rfl
  refine (List.perm_ext_iff_of_nodup m.entries_nodup
    (List.nodup_cons.mpr ⟨hnot, (m.remove e.1).entries_nodup⟩)).mpr ?_
  intro a
  rw [List.mem_cons, mem_remove]
  constructor
  · intro ha
    by_cases hk : a.1 = e.1
    · exact .inl (eq_of_mem_of_fst_eq ha he hk)
    · exact .inr ⟨ha, hk⟩
  · rintro (rfl | ⟨ha, -⟩)
    · exact he
    · exact ha

theorem length_remove_lt (he : e ∈ m.entries) :
    (m.remove e.1).entries.length < m.entries.length := by
  have hlen := (perm_cons_remove he).length_eq
  rw [List.length_cons] at hlen
  omega

/-- The map without its `n` first entries. -/
def drop (m : SortedMap K V) (n : ℕ) : SortedMap K V :=
  ⟨m.entries.drop n, m.sorted.sublist (List.drop_sublist n m.entries)⟩

@[simp] theorem drop_zero (m : SortedMap K V) : m.drop 0 = m := rfl

theorem mem_of_mem_drop {n : ℕ} (h : e ∈ (m.drop n).entries) : e ∈ m.entries :=
  List.mem_of_mem_drop h

def mapValues {W : Type*} (m : SortedMap K V) (f : V → W) : SortedMap K W :=
  ⟨m.entries.map fun e => (e.1, f e.2), List.pairwise_map.mpr m.sorted⟩

@[simp] theorem values_mapValues (m : SortedMap K V) (f : V → W) :
    (m.mapValues f).values = m.values.map f := by
  simp [values, mapValues]

/-- The map with only the entries whose value satisfies `p`. -/
def retain (m : SortedMap K V) (p : V → Bool) : SortedMap K V :=
  ⟨m.entries.filter fun e => p e.2, m.sorted.filter _⟩

theorem mem_retain : e ∈ (m.retain p).entries ↔ e ∈ m.entries ∧ p e.2 = true := by
  simp [retain]

theorem values_retain (m : SortedMap K V) (p : V → Bool) :
    (m.retain p).values = m.values.filter p := by
  rw [values, values, List.filter_map]
  rfl

/-- Insertion into a sorted entry list; an equal key has its value replaced. -/
def insertEntry (k : K) (v : V) : List (K × V) → List (K × V)
  | [] => [(k, v)]
  | e :: l =>
    if k < e.1 then (k, v) :: e :: l
    else if k = e.1 then (k, v) :: l
    else e :: insertEntry k v l

theorem mem_insertEntry (hl : l.Pairwise fun a b => a.1 < b.1) :
    e ∈ insertEntry k v l ↔ e = (k, v) ∨ (e ∈ l ∧ e.1 ≠ k) := by
  induction l with
  | nil => simp [insertEntry]
  | cons a l ih =>
    obtain ⟨ha, hl'⟩ := List.pairwise_cons.mp hl
    rw [insertEntry]
    split_ifs with hlt heq
    · -- every old key is above `k`, so nothing is replaced
      have hne : ∀ x ∈ a :: l, x.1 ≠ k := by
        intro x hx
        rcases List.mem_cons.mp hx with rfl | hx
        · exact hlt.ne'
        · exact (hlt.trans (ha x hx)).ne'
      rw [List.mem_cons]
      exact or_congr_right ⟨fun h => ⟨h, hne e h⟩, fun h => h.1⟩
    · subst heq
      rw [List.mem_cons, List.mem_cons]
      refine or_congr_right ⟨fun h => ⟨.inr h, (ha e h).ne'⟩, ?_⟩
      rintro ⟨rfl | h, hne⟩
      · exact absurd rfl hne
      · exact h
    · rw [List.mem_cons, List.mem_cons, ih hl']
      constructor
      · rintro (rfl | h | ⟨h, hne⟩)
        · exact .inr ⟨.inl rfl, fun h => heq h.symm⟩
        · exact .inl h
        · exact .inr ⟨.inr h, hne⟩
      · rintro (h | ⟨rfl | h, hne⟩)
        · exact .inr (.inl h)
        · exact .inl rfl
        · exact .inr (.inr ⟨h, hne⟩)

theorem pairwise_insertEntry (k : K) (v : V) (hl : l.Pairwise fun a b => a.1 < b.1) :
    (insertEntry k v l).Pairwise fun a b => a.1 < b.1 := by
  induction l with
  | nil => simp [insertEntry]
  | cons a l ih =>
    obtain ⟨ha, hl'⟩ := List.pairwise_cons.mp hl
    rw [insertEntry]
    split_ifs with hlt heq
    · refine List.pairwise_cons.mpr ⟨?_, hl⟩
      intro x hx
      rcases List.mem_cons.mp hx with rfl | hx
      · exact hlt
      · exact hlt.trans (ha x hx)
    · subst heq
      exact List.pairwise_cons.mpr ⟨ha, hl'⟩
    · have hak : a.1 < k := lt_of_le_of_ne (not_lt.mp hlt) (Ne.symm heq)
      refine List.pairwise_cons.mpr ⟨?_, ih hl'⟩
      intro x hx
      rcases (mem_insertEntry hl').mp hx with rfl | ⟨hx, -⟩
      · exact hak
      · exact ha x hx

def insert (m : SortedMap K V) (k : K) (v : V) : SortedMap K V :=
  ⟨insertEntry k v m.entries, pairwise_insertEntry k v m.sorted⟩

theorem mem_insert : e ∈ (m.insert k v).entries ↔ e = (k, v) ∨ (e ∈ m.entries ∧ e.1 ≠ k) :=
  mem_insertEntry m.sorted

theorem insert_perm (m : SortedMap K V) (k : K) (v : V) :
    (m.insert k v).entries.Perm ((k, v) :: (m.remove k).entries) := by
  have hnot : (k, v) ∉ (m.remove k).entries := by
    intro h
    exact (mem_remove.mp h).2 rfl
  refine (List.perm_ext_iff_of_nodup (m.insert k v).entries_nodup
    (List.nodup_cons.mpr ⟨hnot, (m.remove k).entries_nodup⟩)).mpr ?_
  intro a
  rw [mem_insert, List.mem_cons, mem_remove]

@[simp] theorem get?_insert_self (m : SortedMap K V) (k : K) (v : V) :
    (m.insert k v).get? k = some v :=
  get?_eq_some.mpr (mem_insert.mpr (.inl rfl))

theorem get?_insert_of_ne (m : SortedMap K V) {k' : K} (v : V) (h : k' ≠ k) :
    (m.insert k v).get? k' = m.get? k' := by
  apply Option.ext
  intro w
  rw [get?_eq_some, get?_eq_some, mem_insert]
  constructor
  · rintro (heq | ⟨hw, -⟩)
    · exact absurd (Prod.mk.inj heq).1 h
    · exact hw
  · intro hw
    exact .inr ⟨hw, h⟩

theorem get?_insert (m : SortedMap K V) (k k' : K) (v : V) :
    (m.insert k v).get? k' = if k' = k then some v else m.get? k' := by
  split_ifs with h
  · rw [h, get?_insert_self]
  · exact get?_insert_of_ne m v h

theorem get?_insert_eq_some {k' : K} {v w : V} :
    (m.insert k v).get? k' = some w ↔ k' = k ∧ w = v ∨ k' ≠ k ∧ m.get? k' = some w := by
  rw [get?_insert]
  split_ifs with h <;> simp [h, eq_comm]

/-- A fact about some entry after an insertion is one about the new entry or another. -/
theorem exists_get?_insert {v : V} {P : K → V → Prop} : (∃ k' w, (m.insert k v).get? k' = some w ∧
    P k' w) ↔ P k v ∨ ∃ k' w, (k' ≠ k ∧ m.get? k' = some w) ∧ P k' w := by
  simp only [get?_insert_eq_some, or_and_right, exists_or, and_assoc, exists_and_left,
    exists_eq_left]

theorem exists_get?_of_get? {v : V} {P : K → V → Prop} (h : m.get? k = some v) : (∃ k' w,
    m.get? k' = some w ∧ P k' w) ↔ P k v ∨ ∃ k' w, (k' ≠ k ∧ m.get? k' = some w) ∧ P k' w := by
  constructor
  · rintro ⟨k', w, hw, hP⟩
    by_cases hk : k' = k
    · subst hk
      exact .inl (Option.some.inj (h.symm.trans hw) ▸ hP)
    · exact .inr ⟨k', w, ⟨hk, hw⟩, hP⟩
  · rintro (hP | ⟨k', w, ⟨-, hw⟩, hP⟩)
    · exact ⟨k, v, h, hP⟩
    · exact ⟨k', w, hw, hP⟩

theorem remove_insert (m : SortedMap K V) (k : K) (v : V) :
    (m.insert k v).remove k = m.remove k := by
  apply ext_of_mem
  intro e
  rw [mem_remove, mem_insert, mem_remove]
  constructor
  · rintro ⟨rfl | ⟨he, -⟩, hk⟩
    · exact absurd rfl hk
    · exact ⟨he, hk⟩
  · rintro ⟨he, hk⟩
    exact ⟨.inr ⟨he, hk⟩, hk⟩

@[simp] theorem insert_remove (m : SortedMap K V) (k : K) (v : V) :
    (m.remove k).insert k v = m.insert k v := by
  apply ext_of_mem
  intro e
  rw [mem_insert, mem_insert, mem_remove]
  exact or_congr_right ⟨fun h => ⟨h.1.1, h.2⟩, fun h => ⟨⟨h.1, h.2⟩, h.2⟩⟩

theorem insert_insert (m : SortedMap K V) (k : K) (v w : V) :
    (m.insert k v).insert k w = m.insert k w := by
  rw [← insert_remove (m.insert k v), remove_insert, insert_remove]

theorem insert_of_mem (h : (k, v) ∈ m.entries) : m.insert k v = m := by
  apply ext_of_mem
  intro e
  rw [mem_insert]
  constructor
  · rintro (rfl | ⟨he, -⟩)
    · exact h
    · exact he
  · intro he
    by_cases hk : e.1 = k
    · exact .inl (eq_of_mem_of_fst_eq he h hk)
    · exact .inr ⟨he, hk⟩

theorem insertEntry_of_mem (hl : l.Pairwise fun a b => a.1 < b.1) (h : (k, v') ∈ l) :
    insertEntry k v l = l.map fun e => if e.1 = k then (k, v) else e := by
  induction l with
  | nil => cases h
  | cons a l ih =>
    obtain ⟨ha, hl'⟩ := List.pairwise_cons.mp hl
    rw [insertEntry, List.map_cons]
    rcases List.mem_cons.mp h with rfl | h
    · have hid : l.map (fun e => if e.1 = k then (k, v) else e) = l := by
        conv_rhs => rw [← List.map_id l]
        refine List.map_congr_left fun e he => ?_
        rw [if_neg (ha e he).ne']
        rfl
      rw [hid]
      simp
    · have hak : a.1 < k := ha (k, v') h
      rw [if_neg hak.not_gt, if_neg hak.ne', if_neg hak.ne, ih hl' h]

theorem get?_mapValues (m : SortedMap K V) (f : V → W) (k : K) :
    (m.mapValues f).get? k = (m.get? k).map f := by
  simp only [get?, mapValues, List.find?_map, Option.map_map]
  rfl

theorem mapValues_insert (m : SortedMap K V) (f : V → W) (k : K) (v : V) :
    (m.insert k v).mapValues f = (m.mapValues f).insert k (f v) := by
  apply ext
  change (insertEntry k v m.entries).map _ = insertEntry k (f v) (m.entries.map _)
  generalize m.entries = l
  induction l with
  | nil => rfl
  | cons e l ih =>
    rw [insertEntry, List.map_cons, insertEntry]
    split_ifs
    · rfl
    · rfl
    · rw [List.map_cons, ih]

theorem mapValues_drop (m : SortedMap K V) (f : V → W) (n : ℕ) :
    (m.drop n).mapValues f = (m.mapValues f).drop n :=
  ext (List.map_drop)

@[simp] theorem length_mapValues (m : SortedMap K V) (f : V → W) :
    (m.mapValues f).entries.length = m.entries.length :=
  List.length_map _

/-- The entry found first stays first when its value is replaced by one that also
satisfies the predicate. -/
theorem find?_insert_of_find? (h : m.find? p = some (k, v)) (hp : p v' = true) :
    (m.insert k v').find? p = some (k, v') := by
  have hentries : (m.insert k v').entries =
      m.entries.map fun e => if e.1 = k then (k, v') else e :=
    insertEntry_of_mem m.sorted (mem_of_find?_eq_some h)
  obtain ⟨hv, pre, post, hsplit, hpre⟩ := List.find?_eq_some_iff_append.mp h
  have hne : ∀ e ∈ pre, e.1 ≠ k := by
    intro e he
    have hsorted := m.sorted
    rw [hsplit] at hsorted
    exact ((List.pairwise_append.mp hsorted).2.2 e he (k, v) List.mem_cons_self).ne
  refine List.find?_eq_some_iff_append.mpr
    ⟨hp, pre, post.map fun e => if e.1 = k then (k, v') else e, ?_, hpre⟩
  have hkeep : pre.map (fun e => if e.1 = k then (k, v') else e) = pre := by
    conv_rhs => rw [← List.map_id pre]
    exact List.map_congr_left fun e he => if_neg (hne e he)
  rw [hentries, hsplit, List.map_append, hkeep, List.map_cons, if_pos rfl]

/-- Inserting under a key that is present replaces the value in place. -/
theorem values_insert_of_mem (h : (k, v') ∈ m.entries) :
    (m.insert k v).values = m.entries.map fun e => if e.1 = k then v else e.2 := by
  have hentries : (m.insert k v).entries =
      m.entries.map fun e => if e.1 = k then (k, v) else e :=
    insertEntry_of_mem m.sorted h
  rw [values, hentries, List.map_map]
  refine List.map_congr_left fun e _ => ?_
  simp only [Function.comp_apply]
  split_ifs <;> rfl

end SortedMap
