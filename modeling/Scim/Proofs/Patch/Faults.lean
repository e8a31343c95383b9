import Scim.Proofs.Patch.Extension
import Scim.Proofs.Patch.Values

/-!
# What operations fail with

Each check has faults of one kind, and reports them under the path of the operation or the name of the
attribute that it checks. That there is nothing to be changed is none of these faults: it is
reported by the change itself, where a value filter has selected no element.
-/

namespace Scim

open Object

/-! ### Checks of values -/

namespace Attribute

theorem check_scalar_eq_error {path : String} {asMany : Bool} {definition : Attribute} {value : Json}
    {error : PatchError} (scalar : value.isScalar = true)
    (failed : definition.check path asMany value = .error error) :
    ∃ fault, error = .invalidValue path fault := by
  have faulty : (if definition.accepts value then Except.ok ()
      else .error (.invalidValue path (definition.typeFault value))) = .error error := by
    cases value with
    | array items => cases scalar
    | object entries => cases scalar
    | _ => simpa only [check] using failed
  split at faulty
  · cases faulty
  · cases faulty
    exact ⟨_, rfl⟩

mutual

/-- Every fault of a value is reported under the path of the operation. -/
theorem check_eq_error {path : String} {asMany : Bool} {definition : Attribute} {error : PatchError} :
    ∀ value, definition.check path asMany value = .error error →
      ∃ fault, error = .invalidValue path fault
  | .array items, failed => by
    rw [check] at failed
    split at failed
    · exact checkItems_eq_error items failed
    · cases failed
      exact ⟨_, rfl⟩
  | .object entries, failed => by
    rw [check] at failed
    split at failed
    · exact checkEntries_eq_error entries failed
    · cases failed
      exact ⟨_, rfl⟩
  | .null, failed => check_scalar_eq_error rfl failed
  | .bool _, failed => check_scalar_eq_error rfl failed
  | .number _, failed => check_scalar_eq_error rfl failed
  | .string _, failed => check_scalar_eq_error rfl failed

theorem checkItems_eq_error {path : String} {definition : Attribute} {error : PatchError} :
    ∀ items, checkItems path definition items = .error error →
      ∃ fault, error = .invalidValue path fault
  | [], failed => nomatch failed
  | item :: rest, failed => by
    rw [checkItems, bind_eq_error_iff] at failed
    rcases failed with first | ⟨_, _, others⟩
    · exact check_eq_error item first
    · exact checkItems_eq_error rest others

theorem checkEntries_eq_error {path : String} {definition : Attribute} {error : PatchError} :
    ∀ entries, checkEntries path definition entries = .error error →
      ∃ fault, error = .invalidValue path fault
  | [], failed => nomatch failed
  | (key, value) :: rest, failed => by
    rw [checkEntries] at failed
    cases named : definition.sub? key with
    | none =>
      simp only [named] at failed
      cases failed
      exact ⟨_, rfl⟩
    | some sub =>
      simp only [named] at failed
      split at failed
      · rcases bind_eq_error_iff.mp failed with first | ⟨_, _, others⟩
        · exact check_eq_error value first
        · exact checkEntries_eq_error rest others
      · exact checkEntries_eq_error rest failed

end

end Attribute

/-! ### Checks of an operation -/

section Checks

variable {view : View} {target : Target} {change : Change} {error : PatchError}

theorem Target.resolve_eq_error {reference : Reference} {filter : Option Filter} {sub : Option String}
    {path : String} (failed : Target.resolve view reference filter sub path = .error error) :
    ∃ fault, error = .invalidPath path fault := by
  unfold Target.resolve at failed
  split at failed
  · cases failed
    exact ⟨_, rfl⟩
  · rcases bind_eq_error_iff.mp failed with noSub | ⟨_, _, notApplicable⟩
    · unfold Target.resolveSub at noSub
      split at noSub
      · cases noSub
      · split at noSub
        · cases noSub
        · cases noSub
          exact ⟨_, rfl⟩
    · split at notApplicable
      · cases notApplicable
        exact ⟨_, rfl⟩
      · cases notApplicable

theorem Change.ofOperation_eq_error {verb : PatchVerb} {value : Option Json} {path : String}
    (failed : Change.ofOperation verb value path = .error error) :
    error = .invalidValue path .valueRequired := by
  unfold Change.ofOperation at failed
  split at failed <;> cases failed
  rfl

theorem Target.checkFilter_eq_error (failed : target.checkFilter change = .error error) :
    error = .invalidPath target.path .filterOnAdd := by
  unfold Target.checkFilter at failed
  split at failed
  · cases failed
    rfl
  · cases failed

theorem Target.checkValue_eq_error (failed : target.checkValue change = .error error) :
    ∃ fault, error = .invalidValue target.path fault := by
  unfold Target.checkValue at failed
  split at failed
  · cases failed
  next value _ =>
    -- Which definition checks the value does not matter for where the fault is reported.
    split at failed
    · exact Attribute.check_eq_error value failed
    · exact Attribute.check_eq_error value failed
    · split at failed
      · split at failed
        · exact Attribute.checkItems_eq_error _ failed
        · exact Attribute.check_eq_error _ failed
        · cases failed
          exact ⟨_, rfl⟩
      · exact Attribute.check_eq_error value failed

theorem checkMutable_eq_error {definition : Attribute} {present : Bool}
    (failed : checkMutable definition present = .error error) :
    error = .mutability definition.name definition.mutability := by
  unfold checkMutable at failed
  split at failed
  next is =>
    cases failed
    rw [is]
  next is =>
    split at failed
    · cases failed
      rw [is]
    · cases failed
  all_goals cases failed

theorem checkEntriesMutable_eq_error {definition : Attribute} {present : Attribute → Bool}
    {entries : Object} (failed : checkEntriesMutable definition present entries = .error error) :
    ∃ sub ∈ definition.subAttributes, error = .mutability sub.name sub.mutability := by
  induction entries with
  | nil => cases failed
  | cons entry rest ih =>
    rw [checkEntriesMutable] at failed
    cases named : definition.sub? entry.1 with
    | none =>
      simp only [named] at failed
      exact ih failed
    | some sub =>
      simp only [named, bind_eq_error_iff] at failed
      rcases failed with first | ⟨_, _, others⟩
      · exact ⟨sub, (Attribute.find?_eq_some named).1, checkMutable_eq_error first⟩
      · exact ih others

/-- Selected elements are changed unless a sub-attribute may not be written. -/
theorem changeSelected_eq_error {selects : Json → Bool} {items : List Json}
    (failed : changeSelected target selects change items = .error error) :
    ∃ sub : Attribute, error = .mutability sub.name sub.mutability := by
  cases inner : target.sub with
  | none =>
    cases written : change.value? with
    | none =>
      simp only [changeSelected, inner, written] at failed
      cases failed
    | some value =>
      simp only [changeSelected, inner, written] at failed
      cases value with
      | object entries =>
        rcases bind_eq_error_iff.mp failed with notMutable | ⟨_, _, impossible⟩
        · obtain ⟨sub, _, named⟩ := checkEntriesMutable_eq_error notMutable
          exact ⟨sub, named⟩
        · cases impossible
      | _ => cases failed
  | some sub =>
    simp only [changeSelected, inner, bind_eq_error_iff] at failed
    rcases failed with notMutable | ⟨_, _, impossible⟩
    · exact ⟨sub, checkMutable_eq_error notMutable⟩
    · cases impossible

end Checks

/-! ### Nothing to be changed -/

section NoTarget

variable {target : Target} {change : Change} {path : String} {before final : Object}

/-- Where elements are selected, there is something to be changed. -/
theorem applyFiltered_eq_noTarget {filter : Filter}
    (failed : applyFiltered target filter change before = .error (.noTarget path) final) :
    (storedElements (before.slot? target.definition.name)).any
      (filter.matchesElement target.definition) = false := by
  refine Bool.eq_false_iff.mpr fun matching => ?_
  unfold applyFiltered at failed
  -- The mutability is checked first, and its faults are of another kind.
  rcases step_bind_eq_error_iff.mp failed with impossible | ⟨_, _, got, failed⟩
  · exact step_get_ne_error impossible
  obtain ⟨rfl, rfl⟩ := step_get_eq_ok_iff.mp got
  rcases step_bind_eq_error_iff.mp failed with notMutable | ⟨_, _, allowed, failed⟩
  · cases checkMutable_eq_error (step_check_eq_error_iff.mp notMutable).1
  obtain ⟨_, rfl⟩ := step_check_eq_ok_iff.mp allowed
  rcases step_bind_eq_error_iff.mp failed with impossible | ⟨_, _, got, failed⟩
  · exact step_get_ne_error impossible
  obtain ⟨rfl, rfl⟩ := step_get_eq_ok_iff.mp got
  simp only [matching, if_true] at failed
  rcases step_bind_eq_error_iff.mp failed with notMutable | ⟨_, _, _, impossible⟩
  · obtain ⟨_, otherKind⟩ := changeSelected_eq_error (step_check_eq_error_iff.mp notMutable).1
    cases otherKind
  · exact step_modify_ne_error impossible

/-- A step in an extension fails where there is no object for it, or with what the step fails with in
the object that there is or has been made. -/
theorem inExtension_eq_error {urn : String} {create : Bool} {absent step : PatchStep Unit}
    {error : PatchError} (unambiguous : before.Unambiguous)
    (failed : inExtension urn create absent step before = .error error final) :
    ((before.attribute? urn).all Json.isNull = true ∧ absent before = .error error final) ∨
      error = .invalidValue urn .extensionNotObject ∨
      ∃ changed, step (((before.attribute? urn).bind Json.object?).getD []) = .error error changed := by
  unfold inExtension at failed
  rcases step_bind_eq_error_iff.mp failed with impossible | ⟨_, _, got, failed⟩
  · exact absurd impossible step_get_ne_error
  obtain ⟨rfl, rfl⟩ := step_get_eq_ok_iff.mp got
  split at failed
  next skipped => exact .inl ⟨(Bool.and_eq_true_iff.mp skipped).1, failed⟩
  · rcases step_bind_eq_error_iff.mp failed with impossible | ⟨_, ready, entered, failed⟩
    · exact absurd impossible step_modify_ne_error
    have isReady := step_modify_eq_ok_iff.mp entered
    rcases step_bind_eq_error_iff.mp failed with inside | ⟨_, _, _, impossible⟩
    · unfold inSlot at inside
      split at inside
      next container stored =>
        split at inside
        · cases inside
        next fault changed stepped =>
          cases inside
          obtain ⟨_, _, rfl⟩ := enterExtension_spec unambiguous isReady stored
          exact .inr (.inr ⟨changed, stepped⟩)
      · cases inside
        exact .inr (.inl rfl)
    · exact absurd impossible step_modify_ne_error

/-- **A value filter that finds nothing to be changed has selected nothing**, in the object that holds
the attribute, or for want of one. -/
theorem applyTarget_eq_noTarget {filter : Filter} {resolved : Resolved}
    (place : target.container = resolved.member.key?) (unambiguous : before.Unambiguous)
    (inside : Object.Unambiguous ((resolved.container? before).getD []))
    (filtered : target.filter = some filter) (same : target.definition = resolved.definition)
    (failed : applyTarget target change before = .error (.noTarget path) final) :
    (storedElements (resolved.value? before)).any (filter.matchesElement resolved.definition) =
      false := by
  rw [resolved.value?_eq, ← slot?_eq_attribute? inside, ← same]
  unfold applyTarget at failed
  rcases step_bind_eq_error_iff.mp failed with onAdd | ⟨_, _, passed, failed⟩
  · cases Target.checkFilter_eq_error (step_check_eq_error_iff.mp onAdd).1
  obtain ⟨_, rfl⟩ := step_check_eq_ok_iff.mp passed
  rcases step_bind_eq_error_iff.mp failed with notAccepted | ⟨_, _, passed, failed⟩
  · obtain ⟨_, otherKind⟩ := Target.checkValue_eq_error (step_check_eq_error_iff.mp notAccepted).1
    cases otherKind
  obtain ⟨_, rfl⟩ := step_check_eq_ok_iff.mp passed
  -- What is left can fail in the object of the attribute only, or for want of it.
  simp only [applyInContainer, filtered] at failed
  unfold Resolved.container?
  rw [← place]
  cases key : target.container with
  | none =>
    rw [key] at failed
    exact applyFiltered_eq_noTarget failed
  | some urn =>
    rw [key] at failed
    rcases inExtension_eq_error unambiguous failed with ⟨missing, _⟩ | otherKind | ⟨_, stepped⟩
    · have noObject : (before.attribute? urn).bind Json.object? = none := bind_object?_of_missing missing
      simp only [noObject]
      rfl
    · cases otherKind
    · exact applyFiltered_eq_noTarget stepped

/-- An operation on a path fails because the path is not bound to anything, because it has no value to
add, or with what the change fails with. -/
theorem PatchOperation.apply_eq_error {view : View} {operation : PatchOperation} {path : PatchPath}
    {error : PatchError} (isPath : operation.path = some path)
    (attributewise : path.wholeExtension? view = none)
    (failed : operation.apply view before = .error error final) :
    (∃ fault, error = .invalidPath path.text fault) ∨
      (∃ place, error = .invalidValue place .valueRequired) ∨
      ∃ target change,
        Target.resolve view path.reference path.filter path.sub path.text = .ok target ∧
          applyTarget target change before = .error error final := by
  simp only [apply, isPath, attributewise] at failed
  rcases step_bind_eq_error_iff.mp failed with notBound | ⟨target, _, passed, failed⟩
  · exact .inl (Target.resolve_eq_error (step_check_eq_error_iff.mp notBound).1)
  obtain ⟨bound, rfl⟩ := step_check_eq_ok_iff.mp passed
  rcases step_bind_eq_error_iff.mp failed with noValue | ⟨change, _, passed, failed⟩
  · have fault := Change.ofOperation_eq_error (step_check_eq_error_iff.mp noValue).1
    exact .inr (.inl ⟨_, fault⟩)
  obtain ⟨_, rfl⟩ := step_check_eq_ok_iff.mp passed
  exact .inr (.inr ⟨target, change, bound, failed⟩)

end NoTarget

end Scim
