import Mathlib.Data.List.Basic
import Mathlib.Tactic.Common

/-!
# A log of lines that may be torn

A file is the texts of records, each ended by a separator that no text contains; what a crash
leaves of it is any beginning of the file. `joined` is the file of a list of records.
-/

namespace LineLog

open List

variable {ρ β : Type*}

def joined (text : ρ → List β) (sep : β) (rs : List ρ) : List β :=
  rs.flatMap fun r => text r ++ [sep]

/-- The lines of a file; what follows the last separator is a line if it is not empty. -/
def splitLines [DecidableEq β] (sep : β) : List β → List (List β)
  | [] => []
  | b :: bs =>
    if b = sep then [] :: splitLines sep bs
    else
      match splitLines sep bs with
      | [] => [[b]]
      | line :: lines => (b :: line) :: lines

/-- The end of a torn file: nothing, or a beginning of the text of a record. -/
def Torn (text : ρ → List β) (tail : List β) : Option ρ → Prop
  | none => tail = []
  | some r => tail <+: text r

section Joined

variable {text : ρ → List β} {sep : β} {rs rs' : List ρ}

@[simp] theorem joined_nil : joined text sep [] = [] := rfl

@[simp] theorem joined_cons {r : ρ} :
    joined text sep (r :: rs) = text r ++ sep :: joined text sep rs := by
  simp [joined]

theorem joined_append :
    joined text sep (rs ++ rs') = joined text sep rs ++ joined text sep rs' := by
  simp [joined]

/-- What a cut leaves of a file: some of the first records, and a torn end that is of the next
record or of the torn end of the file itself. -/
theorem take_joined (sep : β) (rs : List ρ) {tail : List β} {torn : Option ρ}
    (htorn : Torn text tail torn) (n : ℕ) : ∃ rs₁ tail₁ torn₁, (joined text sep rs ++ tail).take n =
    joined text sep rs₁ ++ tail₁ ∧ Torn text tail₁ torn₁ ∧ rs₁ <+: rs ∧ (∀ r ∈ torn₁, r ∈ rs ∨
    r ∈ torn) ∧ ∀ rs₀, rs₀ <+: rs → (joined text sep rs₀).length ≤ n → rs₀ <+: rs₁ := by
  induction rs generalizing n with
  | nil =>
    refine ⟨[], tail.take n, torn, by simp, ?_, List.prefix_refl _, fun r hr => .inr hr,
      fun rs₀ h _ => h⟩
    cases torn with
    | none => simp_all [Torn]
    | some r => exact ( take_prefix n tail).trans htorn
  | cons r rs ih =>
    by_cases hn : n ≤ (text r).length
    · -- the cut is in the first record
      refine ⟨[], (text r).take n, some r, ?_, take_prefix n (text r),
        nil_prefix, ?_, ?_⟩
      · simp [take_append_of_le_length hn]
      · rintro r' ⟨⟩
        exact .inl mem_cons_self
      · intro rs₀ h hlen
        rcases rs₀ with - | ⟨r₀, rs₀⟩
        · exact List.prefix_refl _
        · obtain ⟨rfl, -⟩ := cons_prefix_cons.mp h
          simp only [joined_cons, length_append, length_cons] at hlen
          omega
    · obtain ⟨m, rfl⟩ : ∃ m, n = (text r).length + (m + 1) := ⟨n - (text r).length - 1, by omega⟩
      obtain ⟨rs₁, tail₁, torn₁, htake, htorn₁, hrs₁, hmem, hkept⟩ := ih m
      refine ⟨r :: rs₁, tail₁, torn₁, ?_, htorn₁, ?_, ?_, ?_⟩
      · have hle : (text r).length ≤ (text r).length + (m + 1) := by omega
        simp [take_append, htake, take_of_length_le hle]
      · simpa using hrs₁
      · intro r' hr'
        exact (hmem r' hr').imp_left (mem_cons_of_mem r)
      · intro rs₀ h hlen
        rcases rs₀ with - | ⟨r₀, rs₀⟩
        · exact nil_prefix
        · obtain ⟨rfl, hrest⟩ := cons_prefix_cons.mp h
          simp only [joined_cons, length_append, length_cons] at hlen
          exact cons_prefix_cons.mpr ⟨rfl, hkept rs₀ hrest (by omega)⟩

end Joined

section Lines

variable [DecidableEq β] {text : ρ → List β} {sep : β} {rs : List ρ}

theorem splitLines_append_sep {line : List β} (h : sep ∉ line) (rest : List β) :
    splitLines sep (line ++ sep :: rest) = line :: splitLines sep rest := by
  induction line with
  | nil => simp [splitLines]
  | cons b line ih =>
    have hb : b ≠ sep := fun hb => h (by simp [hb])
    have hline : sep ∉ line := fun hmem => h (mem_cons_of_mem b hmem)
    simp [splitLines, hb, ih hline]

theorem splitLines_of_not_mem {line : List β} (h : sep ∉ line) :
    splitLines sep line = if line = [] then [] else [line] := by
  induction line with
  | nil => rfl
  | cons b line ih =>
    have hb : b ≠ sep := fun hb => h (by simp [hb])
    have hline : sep ∉ line := fun hmem => h (mem_cons_of_mem b hmem)
    rw [splitLines, if_neg hb, ih hline]
    by_cases hnil : line = []
    · simp [hnil]
    · simp [hnil]

/-- The lines of a torn file: the texts of its records, and the torn end. -/
theorem splitLines_joined_append (htext : ∀ r, sep ∉ text r) {tail : List β}
    {torn : Option ρ} (htorn : Torn text tail torn) : splitLines sep (joined text sep rs ++ tail) =
    rs.map text ++ if tail = [] then [] else [tail] := by
  induction rs with
  | nil =>
    rw [joined_nil, nil_append, map_nil, nil_append]
    apply splitLines_of_not_mem
    cases torn with
    | none => simp_all [Torn]
    | some r => exact fun h => htext r (List.IsPrefix.subset htorn h)
  | cons r rs ih =>
    rw [joined_cons, append_assoc, cons_append, splitLines_append_sep (htext r), ih]
    rfl

end Lines

end LineLog
