import Mathlib.Data.List.Basic
import Mathlib.Logic.Function.Basic

/-!
# Runs of a step function

A run is a fold of a step function over a list of actions; an action that is not possible in a
state leaves the state as it is.
-/

namespace Run

variable {σ α : Type*} {step : σ → α → σ} {C : σ → α → Prop}

/-- Every action of the run from `s` meets the condition `C`. -/
def Along (step : σ → α → σ) (C : σ → α → Prop) : σ → List α → Prop
  | _, [] => True
  | s, a :: as => C s a ∧ Along step C (step s a) as

instance Along.decidable [∀ s a, Decidable (C s a)] :
    ∀ (s : σ) (as : List α), Decidable (Along step C s as)
  | _, [] => .isTrue trivial
  | s, a :: as =>
    have := Along.decidable (step s a) as
    inferInstanceAs (Decidable (C s a ∧ Along step C (step s a) as))

theorem along_of_forall (h : ∀ s a, C s a) (s : σ) (as : List α) : Along step C s as := by
  induction as generalizing s with
  | nil => trivial
  | cons a as ih => exact ⟨h s a, ih (step s a)⟩

theorem along_of_forall_mem {as : List α} (h : ∀ a ∈ as, ∀ s, C s a) (s : σ) :
    Along step C s as := by
  induction as generalizing s with
  | nil => trivial
  | cons a as ih =>
    exact ⟨h a List.mem_cons_self s, ih (fun b hb => h b (List.mem_cons_of_mem a hb)) _⟩

theorem along_append {s : σ} {as bs : List α} :
    Along step C s (as ++ bs) ↔ Along step C s as ∧ Along step C (as.foldl step s) bs := by
  induction as generalizing s with
  | nil => simp [Along]
  | cons a as ih =>
    simp only [List.cons_append, Along, List.foldl_cons, ih, and_assoc]

theorem along_concat {s : σ} {as : List α} {a : α} :
    Along step C s (as ++ [a]) ↔ Along step C s as ∧ C (as.foldl step s) a := by
  rw [along_append]
  simp [Along]

theorem Along.invariant {P : σ → Prop} {s : σ} {as : List α} (h : Along step C s as)
    (h0 : P s) (hstep : ∀ s a, P s → C s a → P (step s a)) : P (as.foldl step s) := by
  induction as generalizing s with
  | nil => exact h0
  | cons a as ih => exact ih h.2 (hstep s a h0 h.1)

theorem update_eq_some {ι β : Type*} [DecidableEq ι] {f : ι → Option β} {i j : ι}
    {v : Option β} {x : β} (h : Function.update f j v i = some x) :
    (i = j ∧ v = some x) ∨ (i ≠ j ∧ f i = some x) := by
  by_cases hij : i = j
  · subst hij
    rw [Function.update_self] at h
    exact .inl ⟨rfl, h⟩
  · rw [Function.update_of_ne hij] at h
    exact .inr ⟨hij, h⟩

end Run
