import Scim.Proofs.Patch.Commits
import Scim.Proofs.Patch.Path
import Scim.Proofs.Patch.Steps
import Scim.Proofs.Reference

/-!
# Operations without a path

An object that is added or replaced without a path stands for one operation for each of its entries,
on the path that its key is. The two are carried out by different steps: an operation on a path looks
for a whole extension by the reference, and an entry by its key.

They come to the same except where the key of an extension holds `null`. A path to the extension makes
such an operation a removal, and skips the addition; an entry is refused in both cases. An entry is
also refused where its key selects elements by a filter, as keys are read as references only.
-/

namespace Scim

namespace PatchOperation

variable {limits : Limits} {view : View} {verb : PatchVerb} {key : String} {value : Json}
  {reference : Reference} {entries before after : Object}

/-! ### The operations of an object -/

/-- Whether an entry stands for an operation: `schemas` does not, nor does adding `null`. -/
def isOwn (verb : PatchVerb) (entry : String × Json) : Bool :=
  !Text.sameName entry.1 "schemas" && !(verb == .add && entry.2.isNull)

/-- The operation that gives an entry its own path, if its key is one. -/
def entryOperation? (limits : Limits) (verb : PatchVerb) (entry : String × Json) :
    Option PatchOperation :=
  match PatchPath.parse limits entry.1 with
  | .ok path => some { verb, path := some path, value := some entry.2 }
  | .error _ => none

/-- The operations that give every entry of an object its own path, in the order of the keys. There
are none if a key is no path. -/
def entryOperations? (limits : Limits) (verb : PatchVerb) (entries : Object) :
    Option (List PatchOperation) :=
  (entries.filter (isOwn verb)).mapM (entryOperation? limits verb)

/-- A key that is short enough for a path and selects no elements by a filter. -/
def IsPlain (limits : Limits) (key : String) : Prop :=
  key.utf8ByteSize ≤ limits.maxFilterLength ∧ '[' ∉ key.toList

/-- The key of an extension is a path to the extension, and holds something other than `null`. -/
def IsReached (view : View) (entry : String × Json) : Prop :=
  ∀ extension, view.extensionFor? entry.1 = some extension →
    entry.2.isNull = false ∧ ∃ reference, Reference.parse entry.1 = .ok reference ∧
      view.resolve? reference = some (.extension extension)

theorem not_schemas_of_isOwn {entry : String × Json} (own : isOwn verb entry = true) :
    ¬Text.sameName entry.1 "schemas" = true := by
  simp only [isOwn, Bool.and_eq_true, Bool.not_eq_true'] at own
  simp [own.1]

theorem not_skipped_of_isOwn {entry : String × Json} (own : isOwn verb entry = true) :
    ¬(verb = .add ∧ entry.2.isNull = true) := by
  simp only [isOwn, Bool.and_eq_true, Bool.not_eq_true', Bool.and_eq_false_iff] at own
  rintro ⟨rfl, null⟩
  simp [null] at own

/-- A plain key is a path if it is a reference. -/
theorem entryOperation?_eq_some_iff {entry : String × Json} {operation : PatchOperation}
    (plain : IsPlain limits entry.1) :
    entryOperation? limits verb entry = some operation ↔
      ∃ reference, Reference.parse entry.1 = .ok reference ∧
        operation = { verb, path := some { reference }, value := some entry.2 } := by
  have read (path : PatchPath) := @PatchPath.parse_of_notMem limits entry.1 path plain.1 plain.2
  unfold entryOperation?
  constructor
  · intro made
    split at made
    next path parsed =>
      cases made
      obtain ⟨reference, named, rfl⟩ := (read path).mp parsed
      exact ⟨reference, named, rfl⟩
    · cases made
  · rintro ⟨reference, named, rfl⟩
    rw [(read { reference }).mpr ⟨reference, named, rfl⟩]

/-- What holds of the operation of an entry is said of the reference that its key is. -/
theorem exists_entryOperation?_iff {entry : String × Json} {holds : PatchOperation → Prop}
    (plain : IsPlain limits entry.1) :
    (∃ operation, entryOperation? limits verb entry = some operation ∧ holds operation) ↔
      ∃ reference, Reference.parse entry.1 = .ok reference ∧
        holds { verb, path := some { reference }, value := some entry.2 } := by
  simp only [entryOperation?_eq_some_iff plain]
  constructor
  · rintro ⟨_, ⟨reference, named, rfl⟩, holding⟩
    exact ⟨reference, named, holding⟩
  · rintro ⟨reference, named, holding⟩
    exact ⟨_, ⟨reference, named, rfl⟩, holding⟩

/-! ### One entry -/

theorem text_of_parse_key (parsed : Reference.parse key = .ok reference) :
    ({ reference } : PatchPath).text = key := by
  simp [PatchPath.text, Reference.text_of_parse parsed]

/-- A key that names no extension is no path to one. -/
theorem wholeExtension?_of_key (parsed : Reference.parse key = .ok reference)
    (free : view.extensionFor? key = none) :
    PatchPath.wholeExtension? { reference } view = none := by
  have noExtension : reference.asSchemaUrn?.bind view.extensionFor? = none := by
    cases named : reference.asSchemaUrn? with
    | none => rfl
    | some urn =>
      rw [Reference.eq_of_asSchemaUrn? parsed named]
      exact free
  unfold PatchPath.wholeExtension? View.resolve?
  rw [noExtension]
  cases view.resolveAttribute? reference <;> rfl

/-- An entry that names an attribute is applied as the operation on its path. -/
theorem applyEntry_eq_ok_iff (plain : IsPlain limits key) (own : isOwn verb (key, value) = true)
    (noExtension : view.extensionFor? key = none) :
    applyEntry view verb key value before = .ok () after ↔
      ∃ operation, entryOperation? limits verb (key, value) = some operation ∧
        operation.apply view before = .ok () after := by
  rw [exists_entryOperation?_iff plain]
  unfold applyEntry
  rw [if_neg (not_skipped_of_isOwn own)]
  cases parsed : Reference.parse key with
  | error fault => simp
  | ok reference =>
    simp only [Except.ok.injEq, exists_eq_left', apply, wholeExtension?_of_key parsed noExtension,
      text_of_parse_key parsed, step_bind_eq_ok_iff, step_check_eq_ok_iff]
    apply exists_congr
    intro target
    apply exists_congr
    intro between
    apply and_congr_right
    rintro ⟨bound, rfl⟩
    -- The path under which faults are reported is the key in both cases.
    obtain ⟨_, _, _, _, _, rfl⟩ := Target.resolve_eq_ok bound
    rfl

/-- An entry that names an extension is applied as the operation on the whole extension. -/
theorem applyTopEntry_extension_eq_ok_iff {extension : Member} (plain : IsPlain limits key)
    (own : isOwn verb (key, value) = true) (notRemove : verb ≠ .remove)
    (found : view.extensionFor? key = some extension) (reached : IsReached view (key, value)) :
    applyTopEntry view verb key value before = .ok () after ↔
      ∃ operation, entryOperation? limits verb (key, value) = some operation ∧
        operation.apply view before = .ok () after := by
  obtain ⟨notNull, reference, parsed, bound⟩ := reached extension found
  have whole : PatchPath.wholeExtension? { reference } view = some extension.schema := by
    simp only [PatchPath.wholeExtension?, bound]
  have made : ∃ change, Change.ofOperation verb (some value) extension.schema.id = .ok change ∧
      change.value? = some value := by
    have stays : (some value).filter (!·.isNull) = some value := by simp [notNull]
    cases verb with
    | add => exact ⟨.add value, by simp [Change.ofOperation, stays], rfl⟩
    | replace => exact ⟨.replace value, by simp [Change.ofOperation, stays], rfl⟩
    | remove => exact absurd rfl notRemove
  obtain ⟨change, made, written⟩ := made
  rw [exists_entryOperation?_iff plain]
  unfold applyTopEntry
  rw [if_neg (not_schemas_of_isOwn own), found, parsed]
  simp only [Except.ok.injEq, exists_eq_left', apply, whole, applyExtension, step_bind_eq_ok_iff,
    step_check_eq_ok_iff, made, and_assoc, exists_and_left, written]
  -- Anything but an object is refused in both cases.
  cases value <;> simp

/-- **One entry is one operation**: whatever its key names, an entry that stands for an operation is
applied as that operation. -/
theorem applyTopEntry_eq_ok_iff {entry : String × Json} (plain : IsPlain limits entry.1)
    (own : isOwn verb entry = true) (notRemove : verb ≠ .remove) (reached : IsReached view entry) :
    applyTopEntry view verb entry.1 entry.2 before = .ok () after ↔
      ∃ operation, entryOperation? limits verb entry = some operation ∧
        operation.apply view before = .ok () after := by
  cases found : view.extensionFor? entry.1 with
  | some extension => exact applyTopEntry_extension_eq_ok_iff plain own notRemove found reached
  | none =>
    unfold applyTopEntry
    rw [if_neg (not_schemas_of_isOwn own), found]
    exact applyEntry_eq_ok_iff plain own found

/-- An entry that stands for no operation changes nothing. -/
theorem applyTopEntry_of_not_own {entry : String × Json} (notOwn : isOwn verb entry = false)
    (reached : IsReached view entry) :
    applyTopEntry view verb entry.1 entry.2 before = .ok () after ↔ before = after := by
  unfold applyTopEntry
  split
  · simp
  next notSchemas =>
    have skipped : verb = .add ∧ entry.2.isNull = true := by
      simpa [isOwn, notSchemas] using notOwn
    cases found : view.extensionFor? entry.1 with
    | some extension =>
      rw [(reached extension found).1] at skipped
      cases skipped.2
    | none =>
      have passed : applyEntry view verb entry.1 entry.2 = pure () := if_pos skipped
      simp [passed]

/-! ### All entries -/

theorem applyEntries_cons_eq_ok_iff {entry : String × Json} :
    applyEntries view verb (entry :: entries) before = .ok () after ↔
      ∃ between, applyTopEntry view verb entry.1 entry.2 before = .ok () between ∧
        applyEntries view verb entries between = .ok () after := by
  have first : applyEntries view verb (entry :: entries) =
      applyTopEntry view verb entry.1 entry.2 >>= fun _ => applyEntries view verb entries :=
    List.forM_cons
  rw [first, step_bind_eq_ok_iff]
  constructor
  · rintro ⟨_, between, done, others⟩
    exact ⟨between, done, others⟩
  · rintro ⟨between, done, others⟩
    exact ⟨(), between, done, others⟩

theorem entryOperations?_cons_of_own {entry : String × Json} (own : isOwn verb entry = true)
    {operations : List PatchOperation} :
    entryOperations? limits verb (entry :: entries) = some operations ↔
      ∃ operation rest, entryOperation? limits verb entry = some operation ∧
        entryOperations? limits verb entries = some rest ∧ operations = operation :: rest := by
  rw [entryOperations?, List.filter_cons_of_pos own, List.mapM_cons]
  cases entryOperation? limits verb entry with
  | none => simp
  | some operation =>
    unfold entryOperations?
    cases (entries.filter (isOwn verb)).mapM (entryOperation? limits verb) <;> simp [eq_comm]

/-- The entries of an object are applied as their operations are, one after the other. -/
theorem applyEntries_eq_ok_iff (fits : 1 ≤ limits.maxPatchOperations) (notRemove : verb ≠ .remove)
    (plain : ∀ entry ∈ entries, isOwn verb entry = true → IsPlain limits entry.1)
    (reached : ∀ entry ∈ entries, IsReached view entry) :
    applyEntries view verb entries before = .ok () after ↔
      ∃ operations, entryOperations? limits verb entries = some operations ∧
        Commits limits view (.object before) operations (.object after) := by
  -- By induction on the entries, from whatever the ones before them have left.
  induction entries generalizing before with
  | nil =>
    have none_iff : Commits limits view (.object before) [] (.object after) ↔ before = after := by
      constructor
      · intro commits
        cases commits
        rfl
      · rintro rfl
        exact .none
    simp [applyEntries, entryOperations?, none_iff]
  | cons entry rest ih =>
    obtain ⟨first, others⟩ := List.forall_mem_cons.mp reached
    obtain ⟨plainFirst, plainOthers⟩ := List.forall_mem_cons.mp plain
    rw [applyEntries_cons_eq_ok_iff]
    cases own : isOwn verb entry with
    | false =>
      have same : entryOperations? limits verb (entry :: rest) = entryOperations? limits verb rest := by
        simp [entryOperations?, own]
      simp only [applyTopEntry_of_not_own own first, exists_eq_left', same]
      exact ih plainOthers others
    | true =>
      simp only [applyTopEntry_eq_ok_iff (plainFirst own) own notRemove first, ih plainOthers others,
        entryOperations?_cons_of_own own]
      constructor
      · rintro ⟨between, ⟨operation, made, applied⟩, operations, madeRest, commits⟩
        exact ⟨operation :: operations, ⟨operation, operations, made, madeRest, rfl⟩,
          (commits_cons_iff fits).mpr ⟨between, applied, commits⟩⟩
      · rintro ⟨_, ⟨operation, operations, made, madeRest, rfl⟩, commits⟩
        obtain ⟨between, applied, commits⟩ := (commits_cons_iff fits).mp commits
        exact ⟨between, ⟨operation, made, applied⟩, operations, madeRest, commits⟩

/-! ### Entries that are refused -/

/-- `null` under the key of an extension is refused, whatever has been done before. -/
theorem applyTopEntry_extension_null_ne_ok {extension : Member}
    (notSchemas : Text.sameName key "schemas" = false)
    (found : view.extensionFor? key = some extension) :
    applyTopEntry view verb key .null before ≠ .ok () after := by
  unfold applyTopEntry
  rw [if_neg (Bool.not_eq_true _ ▸ notSchemas), found]
  exact step_throw_ne_ok

/-- A key that is no reference is refused, a path with a value filter among them. -/
theorem applyTopEntry_of_not_reference {entry : String × Json} (own : isOwn verb entry = true)
    (noExtension : view.extensionFor? entry.1 = none)
    (noReference : ∀ reference, Reference.parse entry.1 ≠ .ok reference) :
    applyTopEntry view verb entry.1 entry.2 before ≠ .ok () after := by
  unfold applyTopEntry
  rw [if_neg (not_schemas_of_isOwn own), noExtension]
  change applyEntry view verb entry.1 entry.2 before ≠ .ok () after
  unfold applyEntry
  rw [if_neg (not_skipped_of_isOwn own)]
  cases parsed : Reference.parse entry.1 with
  | ok reference => exact absurd parsed (noReference reference)
  | error fault => exact step_throw_ne_ok

theorem applyEntries_ne_ok_of_mem {entry : String × Json} (member : entry ∈ entries)
    (refused : ∀ before after, applyTopEntry view verb entry.1 entry.2 before ≠ .ok () after) :
    applyEntries view verb entries before ≠ .ok () after := by
  induction entries generalizing before with
  | nil => cases member
  | cons head rest ih =>
    intro done
    obtain ⟨between, first, others⟩ := applyEntries_cons_eq_ok_iff.mp done
    cases member with
    | head => exact refused before between first
    | tail _ member => exact ih member others

theorem apply_without_path (notRemove : verb ≠ .remove) :
    ({ verb, value := some (.object entries) } : PatchOperation).apply view =
      applyEntries view verb entries :=
  if_neg notRemove

theorem error_patch_of_mem (notRemove : verb ≠ .remove) {entry : String × Json}
    (member : entry ∈ entries)
    (refused : ∀ before after, applyTopEntry view verb entry.1 entry.2 before ≠ .ok () after) :
    (patch limits view [{ verb, value := some (.object entries) }] (.object before)).error ≠ none := by
  intro done
  obtain ⟨_, _, _, applied, _⟩ := patch_singleton_eq_ok done
  rw [apply_without_path notRemove] at applied
  exact applyEntries_ne_ok_of_mem member refused applied

/-- **An object stands for its entries**: an operation without a path succeeds with a resource if and
only if the operations on the paths of its entries, carried out alone and one after the other, lead to
that resource. `schemas` is left out, and so is `null` where it is added.

For this, the keys have to be plain and those of extensions to reach them. The operation fails if the
key of an extension holds `null`, although the operation on that path would remove the extension, or
be left out; and it fails if a key is no reference, also if it is a path with a value filter. -/
theorem patch_without_path (fits : 1 ≤ limits.maxPatchOperations) (view : View)
    (notRemove : verb ≠ .remove) (entries resource : Object) :
    ((∀ entry ∈ entries, isOwn verb entry = true → IsPlain limits entry.1) →
      (∀ entry ∈ entries, IsReached view entry) → ∀ final,
      patch limits view [{ verb, value := some (.object entries) }] (.object resource) =
          ⟨final, none⟩ ↔
        ∃ operations, entryOperations? limits verb entries = some operations ∧
          Commits limits view (.object resource) operations final) ∧
    (∀ key extension, (key, .null) ∈ entries → Text.sameName key "schemas" = false →
      view.extensionFor? key = some extension →
      (patch limits view [{ verb, value := some (.object entries) }] (.object resource)).error ≠
        none) ∧
    ∀ entry ∈ entries, isOwn verb entry = true → view.extensionFor? entry.1 = none →
      (∀ reference, Reference.parse entry.1 ≠ .ok reference) →
      (patch limits view [{ verb, value := some (.object entries) }] (.object resource)).error ≠
        none := by
  refine ⟨?single, ?null, ?filtered⟩
  case single =>
    intro plain reached final
    rw [patch_singleton_eq_ok_iff fits, apply_without_path notRemove]
    constructor
    · rintro ⟨after, rfl, applied⟩
      exact (applyEntries_eq_ok_iff fits notRemove plain reached).mp applied
    · rintro ⟨operations, made, commits⟩
      -- Single operations lead to objects only, too.
      obtain ⟨after, rfl⟩ := exists_of_commits commits
      have applied := (applyEntries_eq_ok_iff fits notRemove plain reached).mpr
        ⟨operations, made, commits⟩
      exact ⟨after, rfl, applied⟩
  case null =>
    intro key extension member notSchemas found
    exact error_patch_of_mem notRemove member
      fun _ _ => applyTopEntry_extension_null_ne_ok notSchemas found
  case filtered =>
    intro entry member own noExtension noReference
    exact error_patch_of_mem notRemove member
      fun _ _ => applyTopEntry_of_not_reference own noExtension noReference

/-- A list that is left out, an attribute that is cleared and an extension that is made; the same with
`null` for the extension, and with a value filter in a key. -/
theorem patch_without_path_badge :
    let view := View.ofSchemas { id := "urn:a", attributes := [.simple "name" .string] }
      [{ id := "urn:b", attributes := [.simple "badge" .string] }]
    let badge : Json := .object [("badge", .string "7")]
    let entries (key : String) (extension : Json) : Object :=
      [("SCHEMAS", .null), (key, .null), ("URN:B", extension)]
    let operation (key : String) (extension : Json) : PatchOperation :=
      { verb := .replace, value := some (.object (entries key extension)) }
    let single (reference : Reference) (value : Json) : PatchOperation :=
      { verb := .replace, path := some { reference }, value := some value }
    let operations := [single ⟨none, "name", none⟩ .null, single ⟨some "URN", "B", none⟩ badge]
    let resource : Json := .object [("name", .string "x"), ("schemas", .array [.string "urn:a"])]
    let final : Json :=
      .object [("schemas", .array [.string "urn:a", .string "urn:b"]), ("urn:b", badge)]
    patch {} view [operation "name" badge] resource = ⟨final, none⟩ ∧
      entryOperations? {} .replace (entries "name" badge) = some operations ∧
      Commits {} view resource operations final ∧
      (patch {} view [operation "name" .null] resource).error ≠ none ∧
      (patch {} view [operation "name[kind pr]" badge] resource).error ≠ none := by
  refine (and_iff_left_of_imp fun done => ?_).mpr rfl
  refine (and_iff_left_of_imp fun made => ?_).mpr rfl
  refine ⟨?single, ?null, ?filtered⟩
  case single =>
    have whole := ((patch_without_path (by decide) _ (by decide) _ _).1 ?plain ?reached _).mp done
    · obtain ⟨operations, same, commits⟩ := whole
      cases made.symm.trans same
      exact commits
    case plain =>
      simp only [List.forall_mem_cons]
      exact ⟨fun _ => ⟨by decide, by decide⟩, fun _ => ⟨by decide, by decide⟩,
        fun _ => ⟨by decide, by decide⟩, fun _ member => nomatch member⟩
    case reached =>
      simp only [List.forall_mem_cons]
      refine ⟨?list, ?name, ?badge, fun _ member => nomatch member⟩
      case list => exact fun _ found => nomatch found
      case name => exact fun _ found => nomatch found
      case badge =>
        intro extension found
        cases found
        exact ⟨rfl, _, rfl, rfl⟩
  case null =>
    exact (patch_without_path (by decide) _ (by decide) _ _).2.1 "URN:B" _ (by simp) (by decide) rfl
  case filtered =>
    exact (patch_without_path (by decide) _ (by decide) _ _).2.2 ("name[kind pr]", .null) (by simp)
      (by decide) rfl fun _ parsed => nomatch parsed

/-- An extension that is replaced by `null` under its key stays where it is, and the operation is
refused; on its path the same operation removes it. Adding `null` under the key is refused as well,
and is left out of the operations. -/
theorem patch_without_path_null :
    let view := View.ofSchemas { id := "urn:a" }
      [{ id := "urn:b", attributes := [.simple "badge" .string] }]
    let entries : Object := [("urn:b", .null)]
    let operation (verb : PatchVerb) : PatchOperation := { verb, value := some (.object entries) }
    let clear : PatchOperation :=
      { verb := .replace, path := some { reference := ⟨some "urn", "b", none⟩ }, value := some .null }
    let resource : Json :=
      .object [("schemas", .array [.string "urn:a", .string "urn:b"]),
        ("urn:b", .object [("badge", .string "7")])]
    let refused : PatchOutcome := ⟨resource, some (.invalidValue "urn:b" .extensionNotObject)⟩
    (patch {} view [operation .replace] resource = refused ∧
      entryOperations? {} .replace entries = some [clear] ∧
      Commits {} view resource [clear] (.object [("schemas", .array [.string "urn:a"])])) ∧
    patch {} view [operation .add] resource = refused ∧
      entryOperations? {} .add entries = some [] ∧ Commits {} view resource [] resource :=
  ⟨⟨rfl, rfl, .step rfl .none⟩, rfl, rfl, .none⟩

end PatchOperation

end Scim
