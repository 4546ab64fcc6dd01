import Mathlib.Data.List.Nodup
import Mathlib.Logic.Function.Basic
import Mathlib.Tactic

/-!
# Hash chains

Each entry of a chain holds the hash of the entry before it and its own hash, which is taken of
that and of its body. `link` builds the entries that continue a chain.
-/

namespace HashChain

open List

structure Entry (B H : Type*) where
  body : B
  prev : Option H
  hash : H
  deriving DecidableEq

section

variable {B H : Type*} (digest : Option H → B → H)

/-- The entries of the bodies, after an entry with hash `prev`. -/
def link (prev : Option H) : List B → List (Entry B H)
  | [] => []
  | b :: bs => ⟨b, prev, digest prev b⟩ :: link (some (digest prev b)) bs

/-- Each entry holds the hash of the one before it, and the first one holds `prev`. -/
def ChainedFrom (prev : Option H) : List (Entry B H) → Prop
  | [] => True
  | e :: es => e.prev = prev ∧ ChainedFrom (some e.hash) es

instance ChainedFrom.decidable [DecidableEq H] :
    ∀ (prev : Option H) (es : List (Entry B H)), Decidable (ChainedFrom prev es)
  | _, [] => .isTrue trivial
  | prev, e :: es =>
    have := ChainedFrom.decidable (some e.hash) es
    inferInstanceAs (Decidable (e.prev = prev ∧ ChainedFrom (some e.hash) es))

def Hashed (e : Entry B H) : Prop := e.hash = digest e.prev e.body

def lastHash (prev : Option H) : List (Entry B H) → Option H
  | [] => prev
  | e :: es => lastHash (some e.hash) es

variable {digest} {prev : Option H} {es es' : List (Entry B H)}

theorem map_body_link (prev : Option H) (bs : List B) :
    (link digest prev bs).map Entry.body = bs := by
  induction bs generalizing prev with
  | nil => rfl
  | cons b bs ih => rw [link, map_cons, ih]

theorem length_link (prev : Option H) (bs : List B) : (link digest prev bs).length = bs.length := by
  rw [← length_map Entry.body, map_body_link]

theorem lastHash_append : lastHash prev (es ++ es') = lastHash (lastHash prev es) es' := by
  induction es generalizing prev with
  | nil => rfl
  | cons e es ih => exact ih

theorem lastHash_none : lastHash none es = es.getLast?.map Entry.hash := by
  induction es using List.reverseRecOn with
  | nil => rfl
  | append_singleton es e _ => simp [lastHash_append, lastHash]

theorem chainedFrom_append :
    ChainedFrom prev (es ++ es') ↔ ChainedFrom prev es ∧ ChainedFrom (lastHash prev es) es' := by
  induction es generalizing prev with
  | nil => simp [ChainedFrom, lastHash]
  | cons e es ih => simp [ChainedFrom, lastHash, ih, and_assoc]

theorem chainedFrom_link (prev : Option H) (bs : List B) :
    ChainedFrom prev (link digest prev bs) := by
  induction bs generalizing prev with
  | nil => trivial
  | cons b bs ih => exact ⟨rfl, ih _⟩

theorem hashed_of_mem_link {bs : List B} {e : Entry B H} (he : e ∈ link digest prev bs) :
    Hashed digest e := by
  induction bs generalizing prev with
  | nil => cases he
  | cons b bs ih =>
    rcases mem_cons.mp he with rfl | he
    · rfl
    · exact ih he

theorem map_prev_concat (h : ChainedFrom prev es) :
    es.map Entry.prev ++ [lastHash prev es] = prev :: es.map fun e => some e.hash := by
  induction es generalizing prev with
  | nil => rfl
  | cons e es ih =>
    rw [map_cons, cons_append, h.1, lastHash, ih h.2, map_cons]

theorem hash_nodup (hdigest : Function.Injective2 digest) (h : ChainedFrom none es)
    (hhashed : ∀ e ∈ es, Hashed digest e) : (none :: es.map fun e => some e.hash).Nodup := by
  induction es using List.reverseRecOn with
  | nil => simp
  | append_singleton es e ih =>
    obtain ⟨hes, heprev, -⟩ := chainedFrom_append.mp h
    have hnodup := ih hes fun x hx => hhashed x (mem_append_left _ hx)
    -- the entry is the first that holds the hash of the one before it
    have hfirst : e.prev ∉ es.map Entry.prev := by
      rw [← map_prev_concat hes, nodup_append] at hnodup
      intro hmem
      exact hnodup.2.2 _ hmem _ (mem_singleton_self _) heprev
    have hnew : some e.hash ∉ none :: es.map fun e => some e.hash := by
      intro hmem
      rcases mem_cons.mp hmem with hnone | hmem
      · cases hnone
      obtain ⟨x, hx, hxe⟩ := mem_map.mp hmem
      have hdigests : digest x.prev x.body = digest e.prev e.body := by
        rw [← hhashed x (mem_append_left _ hx),
          ← hhashed e (mem_append_right _ (mem_singleton_self e))]
        exact Option.some.inj hxe
      exact hfirst (mem_map.mpr ⟨x, hx, (hdigest hdigests).1⟩)
    rw [map_append, ← cons_append]
    refine nodup_append.mpr ⟨hnodup, nodup_singleton _, ?_⟩
    intro x hx y hy hxy
    rw [hxy, mem_singleton.mp hy] at hx
    exact hnew hx

/-- No two entries of a chain continue the same entry. -/
theorem prev_nodup (hdigest : Function.Injective2 digest) (h : ChainedFrom none es)
    (hhashed : ∀ e ∈ es, Hashed digest e) : (es.map Entry.prev).Nodup := by
  have hnodup := hash_nodup hdigest h hhashed
  rw [← map_prev_concat h] at hnodup
  exact hnodup.of_append_left

end

end HashChain
