import Mathlib.Logic.Basic

/-!
# Sequences of checks

A function that may refuse its input is a sequence of checks in `Except`:
`refuseIf` stops with an error, `orRefuse` looks up a value that has to be there. The
lemmas say what is known once such a sequence has succeeded.
-/

namespace Checks

variable {ε α β : Type}

/-- Stops with `e` if the condition holds. -/
def refuseIf (c : Prop) [Decidable c] (e : ε) : Except ε Unit :=
  if c then .error e else .ok ()

def orRefuse (o : Option α) (e : ε) : Except ε α :=
  match o with
  | some a => .ok a
  | none => .error e

variable {f : α → Except ε β} {b : β} {e : ε} {c : Prop} {o : Option α} {a : α}

theorem bind_eq_ok {x : Except ε α} : (x >>= f) = .ok b ↔ ∃ a, x = .ok a ∧ f a = .ok b := by
  cases x with
  | error e | ok a => simp [bind, Except.bind]

theorem refuseIf_eq_ok [Decidable c] {u : Unit} : refuseIf c e = .ok u ↔ ¬ c := by
  by_cases h : c
  · simp [refuseIf, h]
  · simp [refuseIf, h]

theorem refuseIf_bind_eq_ok [Decidable c] {f : Unit → Except ε β} :
    (refuseIf c e >>= f) = .ok b ↔ ¬ c ∧ f () = .ok b := by
  rw [bind_eq_ok]
  constructor
  · rintro ⟨u, hu, hf⟩
    exact ⟨refuseIf_eq_ok.mp hu, hf⟩
  · rintro ⟨hc, hf⟩
    exact ⟨(), refuseIf_eq_ok.mpr hc, hf⟩

theorem orRefuse_eq_ok : orRefuse o e = .ok a ↔ o = some a := by
  cases o with
  | none | some b => simp [orRefuse]

theorem orRefuse_bind_eq_ok : (orRefuse o e >>= f) = .ok b ↔ ∃ a, o = some a ∧ f a = .ok b := by
  simp only [bind_eq_ok, orRefuse_eq_ok]

theorem bind_eq_error {x : Except ε α} :
    (x >>= f) = .error e ↔ x = .error e ∨ ∃ a, x = .ok a ∧ f a = .error e := by
  cases x with
  | error e' | ok a => simp [bind, Except.bind]

theorem refuseIf_eq_error [Decidable c] {e' : ε} : refuseIf c e = .error e' ↔ c ∧ e = e' := by
  by_cases h : c
  · simp [refuseIf, h]
  · simp [refuseIf, h]

theorem orRefuse_eq_error {e' : ε} : orRefuse o e = .error e' ↔ o = none ∧ e = e' := by
  cases o with
  | none | some b => simp [orRefuse]

theorem pure_ne_error : (pure a : Except ε α) ≠ .error e := by
  simp [pure, Except.pure]

theorem refuseIf_bind [Decidable c] {f : Unit → Except ε β} (h : ¬ c) :
    (refuseIf c e >>= f) = f () := by
  rw [refuseIf, if_neg h]
  rfl

theorem orRefuse_bind (h : o = some a) : (orRefuse o e >>= f) = f a := by
  rw [h]
  rfl

theorem ok_bind : ((.ok a : Except ε α) >>= f) = f a := rfl

/-- The errors of `x` are not of the kind `E`. -/
def Avoids (E : ε → Prop) (x : Except ε α) : Prop := ∀ e, x = .error e → ¬ E e

namespace Avoids

variable {E : ε → Prop}

theorem pure (a : α) : Avoids E (Pure.pure a : Except ε α) := fun _ h => absurd h pure_ne_error

theorem refuseIf {c : Prop} [Decidable c] {e : ε} (h : c → ¬ E e) : Avoids E (refuseIf c e) := by
  intro e' he'
  obtain ⟨hc, rfl⟩ := refuseIf_eq_error.mp he'
  exact h hc

theorem orRefuse {o : Option α} {e : ε} (h : ¬ E e) : Avoids E (orRefuse o e) := by
  intro e' he'
  obtain ⟨-, rfl⟩ := orRefuse_eq_error.mp he'
  exact h

theorem bind {x : Except ε α} {f : α → Except ε β} (hx : Avoids E x)
    (hf : ∀ a, x = .ok a → Avoids E (f a)) : Avoids E (x >>= f) := by
  intro e he
  rcases bind_eq_error.mp he with he | ⟨a, ha, he⟩
  · exact hx e he
  · exact hf a ha e he

end Avoids

theorem pure_eq_ok {b : α} : (pure a : Except ε α) = .ok b ↔ a = b := by
  simp [pure, Except.pure]

end Checks
