import Mathlib.Data.Finset.Card
import Mathlib.Data.Finset.Dedup

/-!
# A bounded memory of keys

A set of keys with the queue in which they came. A key is consumed once: it is put into the set
and at the end of the queue, and while the queue is too long the oldest keys are forgotten.
-/

structure SeenQueue (κ : Type*) where
  seen : Finset κ
  fifo : List κ

namespace SeenQueue

open List

variable {κ : Type*} [DecidableEq κ]

def empty : SeenQueue κ := ⟨∅, []⟩

def evict (max : ℕ) (seen : Finset κ) : List κ → SeenQueue κ
  | [] => ⟨seen, []⟩
  | k :: fifo =>
    if max < (k :: fifo).length then evict max (seen.erase k) fifo else ⟨seen, k :: fifo⟩

def consume (max : ℕ) (q : SeenQueue κ) (k : κ) : Bool × SeenQueue κ :=
  if k ∈ q.seen then (false, q) else (true, evict max (insert k q.seen) (q.fifo ++ [k]))

structure Remembers (q : SeenQueue κ) (keys : Finset κ) : Prop where
  nodup : q.fifo.Nodup
  fifo_eq : q.fifo.toFinset = keys
  seen_eq : q.seen = keys

/-- The queue holds the last `max` of the accepted keys, and the set holds the same keys. -/
structure Holds (max : ℕ) (accepted : List κ) (q : SeenQueue κ) : Prop where
  nodup : q.fifo.Nodup
  fifo_eq : q.fifo = accepted.drop (accepted.length - max)
  seen_eq : q.seen = q.fifo.toFinset

variable {q : SeenQueue κ} {keys : Finset κ} {k : κ} {max : ℕ} {accepted : List κ}

theorem remembers_empty : (empty : SeenQueue κ).Remembers ∅ := ⟨nodup_nil, rfl, rfl⟩

theorem evict_of_length_le {seen : Finset κ} {fifo : List κ} (h : fifo.length ≤ max) :
    evict max seen fifo = ⟨seen, fifo⟩ := by
  cases fifo with
  | nil => rfl
  | cons k fifo => rw [evict, if_neg (Nat.not_lt.mpr h)]

theorem Remembers.consume_eq (h : q.Remembers keys) (k : κ) :
    (q.consume max k).1 = decide (k ∉ keys) := by
  unfold SeenQueue.consume
  rw [h.seen_eq]
  by_cases hk : k ∈ keys
  · simp [hk]
  · simp [hk]

theorem toFinset_concat (l : List κ) (k : κ) : (l ++ [k]).toFinset = insert k l.toFinset := by
  rw [toFinset_append, toFinset_cons, toFinset_nil, Finset.union_insert,
    Finset.union_empty]

theorem Remembers.consume (h : q.Remembers keys) (hroom : (insert k keys).card ≤ max) :
    (q.consume max k).2.Remembers (insert k keys) := by
  unfold SeenQueue.consume
  split_ifs with hk
  · rw [Finset.insert_eq_of_mem (h.seen_eq ▸ hk)]
    exact h
  · have hfifo : k ∉ q.fifo := by rwa [← mem_toFinset, h.fifo_eq, ← h.seen_eq]
    have hnodup : (q.fifo ++ [k]).Nodup := by
      rw [← concat_eq_append]
      exact h.nodup.concat hfifo
    have hkeys : (q.fifo ++ [k]).toFinset = insert k keys := by rw [toFinset_concat, h.fifo_eq]
    have hlength : (q.fifo ++ [k]).length ≤ max := by
      rwa [← toFinset_card_of_nodup hnodup, hkeys]
    rw [evict_of_length_le hlength]
    exact ⟨hnodup, hkeys, by rw [h.seen_eq]⟩

theorem evict_toFinset {fifo : List κ} (h : fifo.Nodup) : evict max fifo.toFinset fifo =
    ⟨(fifo.drop (fifo.length - max)).toFinset, fifo.drop (fifo.length - max)⟩ := by
  induction fifo with
  | nil => simp [evict]
  | cons k fifo ih =>
    obtain ⟨hk, h⟩ := nodup_cons.mp h
    rw [evict]
    split_ifs with hlong
    · have hlength : (k :: fifo).length - max = fifo.length - max + 1 := by
        rw [length_cons] at hlong ⊢
        omega
      rw [toFinset_cons, Finset.erase_insert (by rwa [mem_toFinset]), ih h, hlength,
        drop_succ_cons]
    · rw [Nat.sub_eq_zero_of_le (Nat.not_lt.mp hlong), drop_zero]

theorem Holds.consume_iff (h : q.Holds max accepted) :
    (q.consume max k).1 = true ↔ k ∉ accepted.drop (accepted.length - max) := by
  rw [SeenQueue.consume, ← h.fifo_eq, ← mem_toFinset, ← h.seen_eq]
  split_ifs with hk
  · simp [hk]
  · simp [hk]

theorem Holds.consume (h : q.Holds max accepted) : (q.consume max k).2.Holds max
    (if (q.consume max k).1 then accepted ++ [k] else accepted) := by
  rw [SeenQueue.consume]
  by_cases hk : k ∈ q.seen
  · rw [if_pos hk]
    exact h
  · have hnodup : (q.fifo ++ [k]).Nodup := by
      rw [← concat_eq_append]
      exact h.nodup.concat (by rwa [← mem_toFinset, ← h.seen_eq])
    have hfifo : q.fifo ++ [k] = (accepted ++ [k]).drop (accepted.length - max) := by
      rw [h.fifo_eq, drop_append_of_le_length (Nat.sub_le _ _)]
    rw [if_neg hk, h.seen_eq, ← toFinset_concat, evict_toFinset hnodup, if_pos rfl]
    refine ⟨hnodup.drop, ?_, rfl⟩
    dsimp only
    rw [hfifo, drop_drop, length_drop, length_append, length_singleton]
    congr 1
    omega

end SeenQueue
