/-!
# Results of computations that can fail

A sequence of steps that succeeds is taken apart into its steps, with and without a state.
-/

namespace Scim

/-- Two steps succeed if the first one does and the second one succeeds on its result. -/
theorem bind_eq_ok_iff {ε α β : Type} {result : Except ε α} {next : α → Except ε β} {value : β} :
    (result >>= next) = .ok value ↔ ∃ first, result = .ok first ∧ next first = .ok value := by
  cases result <;> simp [bind, Except.bind]

/-- A check succeeds in one way only, so what follows it does not depend on its result. -/
theorem check_bind_eq_ok_iff {ε β : Type} {check : Except ε Unit} {next : Unit → Except ε β}
    {value : β} : (check >>= next) = .ok value ↔ check = .ok () ∧ next () = .ok value := by
  rw [bind_eq_ok_iff]
  exact ⟨fun ⟨_, first, second⟩ => ⟨first, second⟩, fun ⟨first, second⟩ => ⟨(), first, second⟩⟩

/-- Two steps fail if the first one does, or the second one does on its result. -/
theorem bind_eq_error_iff {ε α β : Type} {result : Except ε α} {next : α → Except ε β} {error : ε} :
    (result >>= next) = .error error ↔
      result = .error error ∨ ∃ first, result = .ok first ∧ next first = .error error := by
  cases result <;> simp [bind, Except.bind]

/-- What succeeds does not depend on how errors are reported. -/
theorem mapError_eq_ok_iff {ε ε' α : Type} {report : ε → ε'} {result : Except ε α} {value : α} :
    result.mapError report = .ok value ↔ result = .ok value := by
  cases result <;> constructor <;> rintro ⟨⟩ <;> rfl

/-! ### Steps with a state -/

section Step

variable {ε σ α β : Type} {state final : σ}

theorem step_bind_eq_ok_iff {step : EStateM ε σ α} {next : α → EStateM ε σ β} {value : β} :
    (step >>= next) state = .ok value final ↔
      ∃ first between, step state = .ok first between ∧ next first between = .ok value final := by
  have unfolded : (step >>= next) state = match step state with
      | .ok first between => next first between
      | .error error between => .error error between := rfl
  rw [unfolded]
  cases step state <;> simp [and_assoc]

@[simp] theorem step_pure_eq_ok_iff {value result : α} :
    (pure value : EStateM ε σ α) state = .ok result final ↔ value = result ∧ state = final :=
  Iff.of_eq (EStateM.Result.ok.injEq value state result final)

@[simp] theorem step_get_eq_ok_iff {value : σ} :
    (get : EStateM ε σ σ) state = .ok value final ↔ state = value ∧ state = final :=
  Iff.of_eq (EStateM.Result.ok.injEq state state value final)

@[simp] theorem step_modify_eq_ok_iff {change : σ → σ} {done : PUnit} :
    (modify change : EStateM ε σ PUnit) state = .ok done final ↔ change state = final := by
  have injective := Iff.of_eq (@EStateM.Result.ok.injEq ε σ PUnit PUnit.unit (change state) done final)
  exact injective.trans (and_iff_right rfl)

@[simp] theorem step_throw_ne_ok {error : ε} {value : α} :
    (throw error : EStateM ε σ α) state ≠ .ok value final := by
  intro done
  cases done

/-- A check changes nothing. -/
@[simp] theorem step_check_eq_ok_iff {check : Except ε α} {value : α} :
    (ofExcept check : EStateM ε σ α) state = .ok value final ↔ check = .ok value ∧ state = final := by
  cases check with
  | ok result =>
    have injective := Iff.of_eq (Except.ok.injEq (ε := ε) result value)
    exact step_pure_eq_ok_iff.trans (and_congr_left' injective.symm)
  | error error =>
    constructor
    · exact fun done => absurd done step_throw_ne_ok
    · rintro ⟨impossible, _⟩
      cases impossible

theorem step_bind_eq_error_iff {step : EStateM ε σ α} {next : α → EStateM ε σ β} {error : ε} :
    (step >>= next) state = .error error final ↔
      step state = .error error final ∨
        ∃ first between, step state = .ok first between ∧ next first between = .error error final := by
  have unfolded : (step >>= next) state = match step state with
      | .ok first between => next first between
      | .error error between => .error error between := rfl
  rw [unfolded]
  cases step state <;> simp [and_assoc]

@[simp] theorem step_get_ne_error {error : ε} :
    (get : EStateM ε σ σ) state ≠ .error error final := by
  intro failed
  cases failed

@[simp] theorem step_modify_ne_error {change : σ → σ} {error : ε} :
    (modify change : EStateM ε σ PUnit) state ≠ .error error final := by
  intro failed
  cases failed

@[simp] theorem step_throw_eq_error_iff {error fault : ε} :
    (throw fault : EStateM ε σ α) state = .error error final ↔ fault = error ∧ state = final :=
  Iff.of_eq (EStateM.Result.error.injEq fault state error final)

/-- A check that fails leaves everything as it is. -/
@[simp] theorem step_check_eq_error_iff {check : Except ε α} {error : ε} :
    (ofExcept check : EStateM ε σ α) state = .error error final ↔
      check = .error error ∧ state = final := by
  cases check with
  | ok result =>
    constructor
    · intro failed
      cases failed
    · rintro ⟨impossible, _⟩
      cases impossible
  | error fault =>
    have injective := Iff.of_eq (Except.error.injEq (α := α) fault error)
    exact step_throw_eq_error_iff.trans (and_congr_left' injective.symm)

end Step

end Scim
