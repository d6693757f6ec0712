/-!
# Results that may be errors

What is known of the steps of a computation from the result of the whole.

## Main definitions

* `bind_eq_ok_iff`, `mapError_eq_ok_iff` — a computation gives a result if its steps do.
* `exists_of_any` — a result that passes a check.
-/

namespace RoutePattern

variable {ε ε' α β : Type} {result : Except ε α}

/-- Two steps give a result if the first one does and the second one goes on from it. -/
theorem bind_eq_ok_iff {next : α → Except ε β} {b : β} :
    result >>= next = .ok b ↔ ∃ a, result = .ok a ∧ next a = .ok b := by
  cases result with
  | error e =>
    constructor
    · exact fun h => nomatch h
    · rintro ⟨_, h, _⟩
      cases h
  | ok a =>
    constructor
    · exact fun h => ⟨a, rfl, h⟩
    · rintro ⟨_, ⟨⟩, h⟩
      exact h

/-- Another error is no other result. -/
theorem mapError_eq_ok_iff {f : ε → ε'} {a : α} : result.mapError f = .ok a ↔ result = .ok a := by
  cases result with
  | error e => exact ⟨fun h => (nomatch h), fun h => (nomatch h)⟩
  | ok b =>
    constructor
    · rintro ⟨⟩
      rfl
    · rintro ⟨⟩
      rfl

/-- A result that passes a check has been reached. -/
theorem exists_of_any {check : α → Bool} (h : result.toOption.any check = true) :
    ∃ a, result = .ok a ∧ check a = true := by
  cases result with
  | error e => cases h
  | ok a => exact ⟨a, rfl, h⟩

end RoutePattern
