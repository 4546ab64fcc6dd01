import Mathlib.Tactic

/-!
# Loops with a bound

`Loop.iterate step fuel s` repeats `step` from `s` until it returns `none` or `fuel` rounds have
been made. It is the reading of a `while` loop whose body is `step`: `none` is the exit.
-/

namespace Loop

variable {σ : Type*}

/-- At most `fuel` rounds of `step`, stopping where it returns `none`. -/
def iterate (step : σ → Option σ) : ℕ → σ → σ
  | 0, s => s
  | fuel + 1, s =>
    match step s with
    | none => s
    | some s' => iterate step fuel s'

@[simp] theorem iterate_zero (step : σ → Option σ) (s : σ) : iterate step 0 s = s := rfl

variable {step : σ → Option σ}

theorem iterate_of_none {s : σ} (h : step s = none) (fuel : ℕ) : iterate step fuel s = s := by
  cases fuel with
  | zero => rfl
  | succ n => rw [iterate, h]

theorem iterate_of_some {s s' : σ} (h : step s = some s') (fuel : ℕ) :
    iterate step (fuel + 1) s = iterate step fuel s' := by
  rw [iterate, h]

/-- What every round preserves holds after the loop. -/
theorem iterate_invariant {P : σ → Prop} (hstep : ∀ s s', P s → step s = some s' → P s') :
    ∀ (fuel : ℕ) {s : σ}, P s → P (iterate step fuel s)
  | 0, _, hs => hs
  | fuel + 1, s, hs => by
    cases h : step s with
    | none =>
      rw [iterate_of_none h]
      exact hs
    | some s' =>
      rw [iterate_of_some h]
      exact iterate_invariant hstep fuel (hstep s s' hs h)

/-- A function that takes the rounds of one loop to those of another takes its
result there. -/
theorem iterate_map {τ : Type*} {step' : τ → Option τ} {f : σ → τ} (h : ∀ s, (step s).map f =
    step' (f s)) (fuel : ℕ) (s : σ) : f (iterate step fuel s) = iterate step' fuel (f s) := by
  induction fuel generalizing s with
  | zero => rfl
  | succ fuel ih =>
    have hs := h s
    cases hstep : step s with
    | none =>
      rw [hstep, Option.map_none] at hs
      rw [iterate_of_none hstep, iterate_of_none hs.symm]
    | some s' =>
      rw [hstep, Option.map_some] at hs
      rw [iterate_of_some hstep, iterate_of_some hs.symm, ih]

/-- A loop that lowers `measure` in every round has stopped once the fuel
reaches the measure. -/
theorem iterate_stops {measure : σ → ℕ} (hdec : ∀ s s', step s = some s' → measure s' < measure s) :
    ∀ (fuel : ℕ) (s : σ), measure s ≤ fuel → step (iterate step fuel s) = none
  | 0, s, hfuel => by
    cases h : step s with
    | none => exact h
    | some s' =>
      have := hdec s s' h
      omega
  | fuel + 1, s, hfuel => by
    cases h : step s with
    | none =>
      rw [iterate_of_none h]
      exact h
    | some s' =>
      have hlt := hdec s s' h
      rw [iterate_of_some h]
      exact iterate_stops hdec fuel s' (by omega)

end Loop
