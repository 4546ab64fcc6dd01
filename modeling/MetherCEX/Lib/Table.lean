import Mathlib.Algebra.BigOperators.Group.List.Basic
import Mathlib.Data.List.Nodup

/-!
# Tables

A table is the list of its rows in the order in which they were inserted, and the id of a row
is its position. A row is inserted at the end and updated in place.
-/

namespace Table

variable {α : Type*} {rows : List α} {i j : ℕ} {a b : α}

theorem getElem?_set_cases (h : (rows.set i a)[j]? = some b) :
    j = i ∧ b = a ∨ j ≠ i ∧ rows[j]? = some b := by
  rw [List.getElem?_set] at h
  split_ifs at h with hij hlt
  · exact .inl ⟨hij.symm, (Option.some.inj h).symm⟩
  · exact .inr ⟨fun heq => hij heq.symm, h⟩

theorem getElem?_set_cases₂ {β : Type*} {rows' : List β} {a' b' : β}
    (h : (rows.set i a)[j]? = some b) (h' : (rows'.set i a')[j]? = some b') :
    j = i ∧ b = a ∧ b' = a' ∨ j ≠ i ∧ rows[j]? = some b ∧ rows'[j]? = some b' := by
  rcases getElem?_set_cases h with ⟨hj, hb⟩ | ⟨hj, hb⟩
  · rcases getElem?_set_cases h' with ⟨-, hb'⟩ | ⟨hne, -⟩
    · exact .inl ⟨hj, hb, hb'⟩
    · exact absurd hj hne
  · rcases getElem?_set_cases h' with ⟨heq, -⟩ | ⟨-, hb'⟩
    · exact absurd heq hj
    · exact .inr ⟨hj, hb, hb'⟩

theorem forall_getElem?_set {P : ℕ → α → Prop} (h : ∀ j x, rows[j]? = some x → P j x) (ha : P i a)
    (j : ℕ) (x : α) (hj : (rows.set i a)[j]? = some x) : P j x := by
  rcases getElem?_set_cases hj with ⟨rfl, rfl⟩ | ⟨-, hj⟩
  · exact ha
  · exact h j x hj

theorem getElem?_set_of_getElem? (h : rows[i]? = some b) : (rows.set i a)[i]? = some a :=
  List.getElem?_set_self (List.getElem?_eq_some_iff.mp h).1

theorem getElem?_concat_cases (h : (rows ++ [a])[j]? = some b) :
    j = rows.length ∧ b = a ∨ j < rows.length ∧ rows[j]? = some b := by
  rcases Nat.lt_or_ge j rows.length with hlt | hge
  · rw [List.getElem?_append_left hlt] at h
    exact .inr ⟨hlt, h⟩
  · rw [List.getElem?_append_right hge] at h
    obtain ⟨hj, hb⟩ := List.getElem?_eq_some_iff.mp h
    have hlen : j - rows.length < 1 := hj
    have hj : j = rows.length := by omega
    subst hj
    refine .inl ⟨rfl, ?_⟩
    rw [← hb, List.getElem_singleton]

theorem getElem?_concat_cases₂ {β : Type*} {rows' : List β} {a' b' : β} (hlength : rows'.length =
    rows.length) (h : (rows ++ [a])[j]? = some b) (h' : (rows' ++ [a'])[j]? = some b') : j =
    rows.length ∧ b = a ∧ b' = a' ∨ j < rows.length ∧ rows[j]? = some b ∧ rows'[j]? = some b' := by
  rcases getElem?_concat_cases h with ⟨hj, hb⟩ | ⟨hj, hb⟩
  · rcases getElem?_concat_cases h' with ⟨-, hb'⟩ | ⟨hlt, -⟩
    · exact .inl ⟨hj, hb, hb'⟩
    · exact absurd (hj.trans hlength.symm) (Nat.ne_of_lt hlt)
  · rcases getElem?_concat_cases h' with ⟨heq, -⟩ | ⟨-, hb'⟩
    · exact absurd (heq.trans hlength) (Nat.ne_of_lt hj)
    · exact .inr ⟨hj, hb, hb'⟩

theorem lt_length_of_getElem? (h : rows[i]? = some a) : i < rows.length :=
  (List.getElem?_eq_some_iff.mp h).1

theorem mem_concat (h : b ∈ rows ++ [a]) : b ∈ rows ∨ b = a :=
  (List.mem_append.mp h).imp_right List.mem_singleton.mp

theorem forall_mem_concat {P : α → Prop} (h : ∀ x ∈ rows, P x) (ha : P a) :
    ∀ x ∈ rows ++ [a], P x :=
  List.forall_mem_append.mpr ⟨h, List.forall_mem_singleton.mpr ha⟩

theorem forall_mem_set {P : α → Prop} (h : ∀ x ∈ rows, P x) (ha : P a) :
    ∀ x ∈ rows.set i a, P x := by
  intro x hx
  rcases List.mem_or_eq_of_mem_set hx with hx | rfl
  · exact h x hx
  · exact ha

theorem cons_eraseIdx_perm (h : rows[i]? = some a) : (a :: rows.eraseIdx i).Perm rows := by
  obtain ⟨hi, rfl⟩ := List.getElem?_eq_some_iff.mp h
  exact List.getElem_cons_eraseIdx_perm hi

theorem nodup_map_concat {β : Type*} {f : α → β} (h : (rows.map f).Nodup)
    (ha : f a ∉ rows.map f) : ((rows ++ [a]).map f).Nodup := by
  rw [List.map_append, List.map_singleton, ← List.concat_eq_append]
  exact h.concat ha

end Table
