import Scim.Patch.Apply

/-!
# Operations take effect one at a time

An operation runs on a working copy, and a copy on which it fails is dropped with all that was
changed by then. A request is therefore a row of single operations: those before the first one that
fails are applied, that one and those behind it leave no trace.
-/

namespace Scim

/-- The operations succeed one after the other, each of them applied alone to what the one before it
has left. -/
inductive Commits (limits : Limits) (view : View) : Json → List PatchOperation → Json → Prop
  | none {resource : Json} : Commits limits view resource [] resource
  | step {resource next final : Json} {operation : PatchOperation} {rest : List PatchOperation} :
    patch limits view [operation] resource = ⟨next, .none⟩ → Commits limits view next rest final →
      Commits limits view resource (operation :: rest) final

variable {limits : Limits} {view : View}

/-! ### One operation -/

theorem patch_of_length_le {operations : List PatchOperation}
    (fits : operations.length ≤ limits.maxPatchOperations) (resource : Json) :
    patch limits view operations resource = .ofOperations view resource operations := by
  rw [patch, if_neg (Nat.not_lt.mpr fits)]

/-- A working copy is kept if the operation succeeds and dropped if it fails. -/
theorem patch_singleton (fits : 1 ≤ limits.maxPatchOperations) (operation : PatchOperation)
    (resource : Json) :
    patch limits view [operation] resource =
      match operation.applyToValue view resource with
      | .ok () working => ⟨working, none⟩
      | .error error _ => ⟨resource, some error⟩ := by
  have short : [operation].length ≤ limits.maxPatchOperations := fits
  rw [patch_of_length_le short, PatchOutcome.ofOperations]
  cases operation.applyToValue view resource <;> rfl

theorem patch_singleton_object (fits : 1 ≤ limits.maxPatchOperations) (operation : PatchOperation)
    (object : Object) :
    patch limits view [operation] (.object object) =
      match operation.apply view object with
      | .ok () working => ⟨.object working, none⟩
      | .error error _ => ⟨.object object, some error⟩ := by
  rw [patch_singleton fits, PatchOperation.applyToValue]
  cases operation.apply view object <;> rfl

theorem applyToValue_of_not_object {resource : Json} (notObject : resource.object? = none)
    (operation : PatchOperation) :
    operation.applyToValue view resource = .error (.invalidValue "" .resourceNotObject) resource := by
  cases resource with
  | object entries => cases notObject
  | _ => rfl

/-- An operation that succeeds has not been one too many. -/
theorem fits_of_patch_singleton {operation : PatchOperation} {resource : Json}
    (done : (patch limits view [operation] resource).error = none) : 1 ≤ limits.maxPatchOperations := by
  refine Nat.not_lt.mp fun tooMany => ?_
  rw [patch, if_pos (by simpa using tooMany)] at done
  cases done

/-- An operation that succeeds has been applied to an object. -/
theorem patch_singleton_eq_ok {operation : PatchOperation} {resource : Json}
    (done : (patch limits view [operation] resource).error = none) :
    ∃ before after, resource = .object before ∧ operation.apply view before = .ok () after ∧
      (patch limits view [operation] resource).resource = .object after := by
  have fits := fits_of_patch_singleton done
  cases resource with
  | object before =>
    rw [patch_singleton_object fits] at done ⊢
    cases applied : operation.apply view before with
    | ok _ after => exact ⟨before, after, rfl, applied, rfl⟩
    | error error _ =>
      rw [applied] at done
      cases done
  | _ =>
    rw [patch_singleton fits, applyToValue_of_not_object rfl] at done
    cases done

/-- What an operation makes of an object is an object. -/
theorem exists_of_patch_singleton {operation : PatchOperation} {object : Object} {final : Json}
    (done : patch limits view [operation] (.object object) = ⟨final, none⟩) :
    ∃ after, final = .object after ∧ operation.apply view object = .ok () after := by
  obtain ⟨_, after, same, applied, result⟩ := patch_singleton_eq_ok (congrArg PatchOutcome.error done)
  cases same
  rw [done] at result
  exact ⟨after, result, applied⟩

theorem patch_singleton_eq_ok_iff (fits : 1 ≤ limits.maxPatchOperations) {operation : PatchOperation}
    {object : Object} {final : Json} :
    patch limits view [operation] (.object object) = ⟨final, none⟩ ↔
      ∃ after, final = .object after ∧ operation.apply view object = .ok () after := by
  constructor
  · exact exists_of_patch_singleton
  · rintro ⟨after, rfl, applied⟩
    rw [patch_singleton_object fits, applied]

/-- An operation that fails on an object has failed in itself, or was one too many. -/
theorem patch_singleton_eq_error {operation : PatchOperation} {object : Object} {error : PatchError}
    (failed : (patch limits view [operation] (.object object)).error = some error) :
    error = .tooManyOperations 1 limits.maxPatchOperations ∨
      ∃ working, operation.apply view object = .error error working := by
  by_cases tooMany : limits.maxPatchOperations < [operation].length
  · rw [patch, if_pos tooMany] at failed
    cases failed
    exact .inl rfl
  · rw [patch_singleton_object (Nat.not_lt.mp tooMany)] at failed
    cases applied : operation.apply view object with
    | ok _ working =>
      rw [applied] at failed
      cases failed
    | error fault working =>
      rw [applied] at failed
      cases failed
      exact .inr ⟨working, rfl⟩

/-! ### A row of operations -/

/-- The first operation is applied alone, and the others to what it leaves. -/
theorem ofOperations_cons (fits : 1 ≤ limits.maxPatchOperations) (operation : PatchOperation)
    (rest : List PatchOperation) (resource : Json) :
    PatchOutcome.ofOperations view resource (operation :: rest) =
      match patch limits view [operation] resource with
      | ⟨next, none⟩ => .ofOperations view next rest
      | ⟨_, some error⟩ => ⟨resource, some error⟩ := by
  rw [patch_singleton fits, PatchOutcome.ofOperations]
  cases operation.applyToValue view resource <;> rfl

theorem commits_cons_iff (fits : 1 ≤ limits.maxPatchOperations) {operation : PatchOperation}
    {rest : List PatchOperation} {object : Object} {final : Json} :
    Commits limits view (.object object) (operation :: rest) final ↔
      ∃ between, operation.apply view object = .ok () between ∧
        Commits limits view (.object between) rest final := by
  constructor
  · intro commits
    cases commits with
    | step alone others =>
      obtain ⟨between, rfl, applied⟩ := exists_of_patch_singleton alone
      exact ⟨between, applied, others⟩
  · rintro ⟨between, applied, others⟩
    exact .step ((patch_singleton_eq_ok_iff fits).mpr ⟨between, rfl, applied⟩) others

/-- What a row of operations makes of an object is an object. -/
theorem exists_of_commits {operations : List PatchOperation} {object : Object} {final : Json}
    (commits : Commits limits view (.object object) operations final) :
    ∃ after, final = .object after := by
  induction operations generalizing object with
  | nil =>
    cases commits
    exact ⟨object, rfl⟩
  | cons operation rest ih =>
    cases commits with
    | step alone others =>
      obtain ⟨between, rfl, _⟩ := exists_of_patch_singleton alone
      exact ih others

theorem ofOperations_eq_none_iff {operations : List PatchOperation} {resource final : Json}
    (fits : operations.length ≤ limits.maxPatchOperations) :
    PatchOutcome.ofOperations view resource operations = ⟨final, none⟩ ↔
      Commits limits view resource operations final := by
  -- By induction on the operations, from whatever the ones before them have left.
  induction operations generalizing resource with
  | nil =>
    constructor
    · intro done
      cases done
      exact .none
    · intro commits
      cases commits
      rfl
  | cons operation rest ih =>
    rw [List.length_cons] at fits
    rw [ofOperations_cons (Nat.le_trans (Nat.le_add_left 1 _) fits)]
    constructor
    · intro done
      cases alone : patch limits view [operation] resource with
      | mk next error =>
        cases error with
        | none =>
          rw [alone] at done
          exact .step alone ((ih (Nat.le_of_succ_le fits)).mp done)
        | some error =>
          rw [alone] at done
          cases done
    · intro commits
      cases commits with
      | step alone others =>
        rw [alone]
        exact (ih (Nat.le_of_succ_le fits)).mpr others

theorem ofOperations_eq_some_iff {operations : List PatchOperation} {resource final : Json}
    {error : PatchError} (fits : operations.length ≤ limits.maxPatchOperations) :
    PatchOutcome.ofOperations view resource operations = ⟨final, some error⟩ ↔
      ∃ done operation rest, operations = done ++ operation :: rest ∧
        Commits limits view resource done final ∧
        (patch limits view [operation] final).error = some error := by
  induction operations generalizing resource with
  | nil => simp [PatchOutcome.ofOperations]
  | cons first others ih =>
    rw [List.length_cons] at fits
    have fitsOne : 1 ≤ limits.maxPatchOperations := Nat.le_trans (Nat.le_add_left 1 _) fits
    have fitsOthers : others.length ≤ limits.maxPatchOperations := Nat.le_of_succ_le fits
    rw [ofOperations_cons fitsOne]
    constructor
    · intro failed
      cases alone : patch limits view [first] resource with
      | mk next fault =>
        rw [alone] at failed
        cases fault with
        | none =>
          obtain ⟨done, operation, rest, rfl, commits, fails⟩ := (ih fitsOthers).mp failed
          exact ⟨first :: done, operation, rest, rfl, .step alone commits, fails⟩
        | some fault =>
          cases failed
          exact ⟨[], first, others, rfl, .none, by rw [alone]⟩
    · rintro ⟨done, operation, rest, split, commits, fails⟩
      -- Either the first operation is the one that fails, or it is among those before.
      cases commits with
      | none =>
        obtain ⟨rfl, rfl⟩ := List.cons.inj split
        cases alone : patch limits view [first] final with
        | mk next fault =>
          rw [alone] at fails
          cases fails
          rfl
      | @step _ next _ _ done alone commits =>
        obtain ⟨rfl, rfl⟩ := List.cons.inj split
        rw [alone]
        exact (ih fitsOthers).mpr ⟨done, operation, rest, rfl, commits, fails⟩

theorem ofOperations_of_not_object {resource : Json} (notObject : resource.object? = none)
    (operations : List PatchOperation) :
    (PatchOutcome.ofOperations view resource operations).resource = resource := by
  cases operations with
  | nil => rfl
  | cons operation rest => rw [PatchOutcome.ofOperations, applyToValue_of_not_object notObject]

theorem resource_patch_of_not_object {resource : Json} (notObject : resource.object? = none)
    (operations : List PatchOperation) :
    (patch limits view operations resource).resource = resource := by
  unfold patch
  split
  · rfl
  · exact ofOperations_of_not_object notObject operations

/-- **Atomicity of operations**: a request with too many operations fails and changes nothing. Any
other request succeeds with `final` if and only if its operations lead there one at a time, and
fails with `error` and leaves `final` behind if and only if some of its operations lead there and
the next one fails on `final` alone with that error. Whatever a failing operation has done to its
working copy, nothing of it is seen. -/
theorem patch_commits (limits : Limits) (view : View) (operations : List PatchOperation)
    (resource : Json) :
    (limits.maxPatchOperations < operations.length →
      patch limits view operations resource =
        ⟨resource, some (.tooManyOperations operations.length limits.maxPatchOperations)⟩) ∧
    (operations.length ≤ limits.maxPatchOperations →
      (∀ final, patch limits view operations resource = ⟨final, none⟩ ↔
        Commits limits view resource operations final) ∧
      ∀ final error, patch limits view operations resource = ⟨final, some error⟩ ↔
        ∃ done operation rest, operations = done ++ operation :: rest ∧
          Commits limits view resource done final ∧
          (patch limits view [operation] final).error = some error) ∧
    (1 ≤ limits.maxPatchOperations → ∀ (operation : PatchOperation) (object working : Object),
      (operation.apply view object = .ok () working →
        patch limits view [operation] (.object object) = ⟨.object working, none⟩) ∧
      ∀ error, operation.apply view object = .error error working →
        patch limits view [operation] (.object object) = ⟨.object object, some error⟩) ∧
    (resource.object? = none → (patch limits view operations resource).resource = resource) ∧
    patched limits view operations resource =
      match (patch limits view operations resource).error with
      | none => .ok (patch limits view operations resource).resource
      | some error => .error error := by
  refine ⟨fun tooMany => ?_, fun fits => ?_, fun fitsOne operation object working => ?_,
    fun notObject => ?_, ?_⟩
  · rw [patch, if_pos tooMany]
  · rw [patch_of_length_le fits]
    exact ⟨fun _ => ofOperations_eq_none_iff fits, fun _ _ => ofOperations_eq_some_iff fits⟩
  · rw [patch_singleton_object fitsOne]
    -- Whether `working` is kept or dropped does not depend on what it is.
    constructor
    · intro succeeds
      rw [succeeds]
    · intro error fails
      rw [fails]
  · unfold patch
    split
    · rfl
    · exact ofOperations_of_not_object notObject operations
  · rw [patched]
    cases patch limits view operations resource with
    | mk final error => cases error <;> rfl

/-- The last operation has rewritten an attribute, made an extension and listed it before it comes
to an attribute that it must not write. -/
theorem patch_commits_partway :
    let view := View.ofSchemas
      { id := "urn:a", attributes := [.simple "name" .string,
        { name := "zone", mutability := .readOnly }] }
      [{ id := "urn:b", attributes := [.simple "badge" .string] }]
    let first : PatchOperation := { verb := .add, value := some (.object [("name", .string "x")]) }
    let last : PatchOperation :=
      { verb := .add, value := some (.object [("name", .string "y"),
        ("urn:b", .object [("badge", .string "7")]), ("zone", .string "north")]) }
    last.apply view [("name", .string "x"), ("schemas", .array [.string "urn:a"])] =
        .error (.mutability "zone" .readOnly)
          [("name", .string "y"), ("schemas", .array [.string "urn:a", .string "urn:b"]),
            ("urn:b", .object [("badge", .string "7")])] ∧
      patch {} view [first, last] (.object [("schemas", .array [.string "urn:a"])]) =
        ⟨.object [("name", .string "x"), ("schemas", .array [.string "urn:a"])],
          some (.mutability "zone" .readOnly)⟩ := by
  have alone (view : View) (operation : PatchOperation) (object working : Object) :=
    (patch_commits {} view [] .null).2.2.1 (by decide) operation object working
  refine ⟨rfl, (((patch_commits {} _ [_, _] _).2.1 (by decide)).2 _ _).mpr ⟨[_], _, [], rfl, ?_, ?_⟩⟩
  · exact .step ((alone _ _ _ _).1 rfl) .none
  · rw [(alone _ _ _ _).2 _ rfl]

end Scim
