import MetherCEX.Lib.SortedMap

/-!
# Renaming the numbers of a counter

Two processes draw numbers from counters of their own, and one of them skips numbers that the
other does not.
-/

/-- `ρ` renames numbers strictly increasingly, the numbers from `a` on to those from `b`
on. -/
structure Shift (ρ : ℕ → ℕ) (a b : ℕ) : Prop where
  strictMono : StrictMono ρ
  from_next : ∀ k, ρ (a + k) = b + k

namespace Shift

variable {ρ : ℕ → ℕ} {a b : ℕ}

theorem refl (a : ℕ) : Shift id a a := ⟨strictMono_id, fun _ => rfl⟩

theorem draw (h : Shift ρ a b) (n : ℕ) : Shift ρ (a + n) (b + n) :=
  ⟨h.strictMono, fun k => by rw [Nat.add_assoc, h.from_next, Nat.add_assoc]⟩

theorem le_next (h : Shift ρ a b) : a ≤ b := by
  have hle := h.strictMono.le_apply (x := a)
  have hnext := h.from_next 0
  simp only [Nat.add_zero] at hnext
  omega

theorem skip (h : Shift ρ a b) (n : ℕ) : ∃ ρ', Shift ρ' a (b + n) ∧ ∀ k < a, ρ' k = ρ k := by
  refine ⟨fun k => if k < a then ρ k else ρ k + n, ⟨fun i j hij => ?_, fun k => ?_⟩,
    fun k hk => if_pos hk⟩
  · have hlt := h.strictMono hij
    split_ifs <;> omega
  · rw [if_neg (by omega), h.from_next]
    omega

end Shift

namespace SortedMap

variable {K K' V : Type*} [LinearOrder K] [LinearOrder K']

def mapKeys (m : SortedMap K V) (ρ : K → K') (hρ : StrictMono ρ) : SortedMap K' V :=
  ⟨m.entries.map fun e => (ρ e.1, e.2), List.pairwise_map.mpr (m.sorted.imp fun h => hρ h)⟩

variable {ρ : K → K'} (hρ : StrictMono ρ)

theorem get?_mapKeys (m : SortedMap K V) (k : K) : (m.mapKeys ρ hρ).get? (ρ k) = m.get? k := by
  simp only [get?, mapKeys, List.find?_map, Option.map_map, Function.comp_def,
    hρ.injective.eq_iff]

theorem mapKeys_insert (m : SortedMap K V) (k : K) (v : V) :
    (m.insert k v).mapKeys ρ hρ = (m.mapKeys ρ hρ).insert (ρ k) v := by
  apply ext
  change (insertEntry k v m.entries).map _ = insertEntry (ρ k) v (m.entries.map _)
  generalize m.entries = l
  induction l with
  | nil => rfl
  | cons e l ih =>
    rw [insertEntry, List.map_cons, insertEntry]
    simp only [hρ.lt_iff_lt, hρ.injective.eq_iff]
    split_ifs
    · rfl
    · rfl
    · rw [List.map_cons, ih]

theorem mapKeys_drop (m : SortedMap K V) (n : ℕ) :
    (m.drop n).mapKeys ρ hρ = (m.mapKeys ρ hρ).drop n :=
  ext List.map_drop

@[simp] theorem length_mapKeys (m : SortedMap K V) :
    (m.mapKeys ρ hρ).entries.length = m.entries.length :=
  List.length_map _

theorem mapKeys_congr {ρ' : K → K'} (hρ' : StrictMono ρ') {m : SortedMap K V}
    (h : ∀ k ∈ m.keys, ρ' k = ρ k) : m.mapKeys ρ' hρ' = m.mapKeys ρ hρ :=
  ext (List.map_congr_left fun e he => by rw [h e.1 (List.mem_map_of_mem he)])

end SortedMap
