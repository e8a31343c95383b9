import Scim.Proofs.Patch.Commits
import Scim.Proofs.Patch.Listing

/-!
# Writing in an extension declares it

An operation that makes the object of an extension puts the URN into `schemas`. An object that is there
already, be it an empty one, is written to without a look at the list. So the extensions that a resource
has are declared after an operation if those that it had were declared before it.
-/

namespace Scim

open Object

variable {view : View} {member : Member} {target : Target} {change : Change} {urns left : List Json}
  {urn : String} {resource before after container : Object}

/-- An extension that is there is named in the list. -/
def Object.Declares (resource : Object) (urns : List Json) (urn : String) : Prop :=
  resource.HasExtension urn → ListsUrn urns urn

/-- A list that follows an extension declares it again. -/
theorem FollowsExtension.declares (follows : FollowsExtension before after urns left urn)
    (declared : before.Declares urns urn) : after.Declares left urn := by
  intro there
  rcases follows with ⟨sameEntry, sameList⟩ | agrees
  · exact sameList.mpr (declared (sameEntry.mp there))
  · exact agrees.mp there

/-! ### A step in the object -/

/-- An object that is still there after tidying has been left alone. -/
theorem tidyExtension_eq_self (unambiguous : resource.Unambiguous)
    (there : HasExtension (tidyExtension resource urn) urn) : tidyExtension resource urn = resource := by
  unfold tidyExtension at there ⊢
  split
  next stored =>
    split
    · rfl
    next hollow =>
      -- What has been dropped would not be there.
      obtain ⟨_, dropped⟩ := removeEntry_spec urn unambiguous
      obtain ⟨_, kept, _⟩ := there
      rw [stored] at kept
      simp only [hollow, Bool.false_eq_true, if_false, dropped] at kept
      cases kept
  · rfl

theorem attribute?_schemas_createExtension (unambiguous : before.Unambiguous)
    (notSchemas : Text.fold urn ≠ Text.fold "schemas")
    (stored : before.attribute? "schemas" = some (.array urns)) :
    Object.attribute? (createExtension urn before) "schemas" =
      some (.array (registered urn urns)) := by
  have made : Object.attribute? (before.setAttribute urn (.object [])) "schemas" =
      some (.array urns) := (attribute?_setAttribute_of_ne unambiguous notSchemas.symm).trans stored
  exact attribute?_schemas_changeSchemas (unambiguous.setAttribute urn (.object [])) made _

/-- **A change to an attribute of an extension** that leaves the extension there declares it if the
object had to be made for it, and does nothing to the list otherwise. -/
theorem applyTarget_declares (wellFormed : view.WellFormed) (unambiguous : before.Unambiguous)
    (extension : member ∈ view.extensionMembers) (place : target.container = member.key?)
    (stored : before.attribute? "schemas" = some (.array urns))
    (applied : applyTarget target change before = .ok () after)
    (there : after.HasExtension member.schema.id) :
    after.attribute? "schemas" = some (.array (if before.HasExtension member.schema.id then urns
      else registered member.schema.id urns)) := by
  have isKey := place.trans (wellFormed.key?_eq extension)
  have notSchemas :=
    wellFormed.notSchemas member (View.mem_members_of_mem_extensionMembers extension)
  obtain ⟨_, _, applies⟩ := applyTarget_applies applied
  cases applies with
  | atTop atTop =>
    rw [isKey] at atTop
    cases atTop
  | skipped place _ _ missing =>
    -- Nothing was there, and nothing has been made.
    obtain rfl := Option.some.inj (isKey.symm.trans place)
    exact absurd missing (HasExtension.iff_not_missing.mp there)
  | @inside urn ready container changed place isReady _ slot =>
    obtain rfl := Option.some.inj (isKey.symm.trans place)
    -- Only making the object can have changed the list: what is put into it does not, and it stays.
    obtain ⟨entered, _, _⟩ := enterExtension_spec unambiguous isReady slot
    have put : ChangesOnly member.schema.id ready
        (ready.replaceSlot member.schema.id (.object changed)) := .replaceSlot entered.unambiguous
    rw [tidyExtension_eq_self put.unambiguous there, put.others "schemas" notSchemas.symm, ← isReady]
    split
    next missing =>
      rw [if_neg fun known => HasExtension.iff_not_missing.mp known missing]
      exact attribute?_schemas_createExtension unambiguous notSchemas stored
    next known => rw [if_pos (HasExtension.iff_not_missing.mpr known), stored]

/-! ### Operations -/

/-- **Writing in an extension declares it**, if the extension was not there before or was declared
already: whatever the operation is, an extension that the resource has after it is named in `schemas`
then. If the path is that of an attribute of the extension, or of a sub-attribute, the URN is put into
the list in the first of these cases only, and the list stays as it is in all others. -/
theorem patch_declares {limits : Limits} {view : View} {operation : PatchOperation} {member : Member}
    {before after : Object} {urns : List Json} (wellFormed : view.WellFormed)
    (distinct : before.Distinct) (stored : before.attribute? "schemas" = some (.array urns))
    (extension : member ∈ view.extensionMembers)
    (done : patch limits view [operation] (.object before) = ⟨.object after, none⟩)
    (there : after.HasExtension member.schema.id) :
    ∃ left, after.attribute? "schemas" = some (.array left) ∧
      (before.Declares urns member.schema.id → ListsUrn left member.schema.id) ∧
      ∀ path resolved, operation.path = some path → path.wholeExtension? view = none →
        view.resolveAttribute? path.reference = some resolved → resolved.member = member →
        left = if before.HasExtension member.schema.id then urns
          else registered member.schema.id urns := by
  have unambiguous := distinct.unambiguous
  obtain ⟨_, same, applied⟩ := exists_of_patch_singleton done
  cases same
  have kept := (isKept_followsListing wellFormed).isKeptWhere.operation operation
    (fun _ _ _ => trivial) before after applied unambiguous
  obtain ⟨left, storedAfter, _, follows⟩ := kept.listing urns stored
  refine ⟨left, storedAfter, fun declared => (follows member extension).declares declared there, ?_⟩
  rintro path resolved isPath attributewise bound rfl
  obtain ⟨_, _, _, _, _, applied⟩ :=
    PatchOperation.exists_target_of_apply isPath attributewise bound applied
  have registers := applyTarget_declares wellFormed unambiguous extension rfl stored applied there
  cases storedAfter.symm.trans registers
  rfl

/-- `null` counts as nothing, so an object is made for the sub-attribute and the URN is appended. -/
theorem patch_declares_card :
    let card : Attribute := { name := "card", type := .complex, subAttributes := [{ name := "colour" }] }
    let extension : Schema := { id := "urn:b", attributes := [card] }
    let view := View.ofSchemas { id := "urn:a" } [extension]
    let path : PatchPath := { reference := ⟨some "urn:b", "card", some "colour"⟩ }
    let operation : PatchOperation := { verb := .add, path := some path, value := some (.string "red") }
    let urns : List Json := [.string "urn:a"]
    let before : Object := [("URN:B", .null), ("schemas", .array urns)]
    let after : Object :=
      [("schemas", .array [.string "urn:a", .string "urn:b"]),
        ("urn:b", .object [("card", .object [("colour", .string "red")])])]
    patch {} view [operation] (.object before) = ⟨.object after, none⟩ ∧
      ∃ left, after.attribute? "schemas" = some (.array left) ∧
        (before.Declares urns "urn:b" → ListsUrn left "urn:b") ∧
        left = if before.HasExtension "urn:b" then urns else registered "urn:b" urns := by
  refine (and_iff_left_of_imp fun done => ?_).mpr rfl
  obtain ⟨left, stored, declares, changes⟩ :=
    patch_declares (by decide) (by decide) rfl List.mem_cons_self done ⟨_, rfl, rfl⟩
  exact ⟨left, stored, declares, changes _ ⟨_, _, _⟩ rfl rfl rfl rfl⟩

/-- The extension is there with nothing in it, and is not named in the list. The first value is written
into it, and the list is not looked at. -/
theorem patch_declares_hollow :
    let extension : Schema := { id := "urn:b", attributes := [.simple "badge" .integer] }
    let view := View.ofSchemas { id := "urn:a" } [extension]
    let path : PatchPath := { reference := ⟨some "urn:b", "badge", none⟩ }
    let operation : PatchOperation :=
      { verb := .add, path := some path, value := some (.number (.integer 7)) }
    let urns : List Json := [.string "urn:a"]
    let before : Object := [("schemas", .array urns), ("urn:b", .object [])]
    let after : Object :=
      [("schemas", .array urns), ("urn:b", .object [("badge", .number (.integer 7))])]
    view.WellFormed ∧ before.Distinct ∧
      patch {} view [operation] (.object before) = ⟨.object after, none⟩ ∧
      after.has "urn:b" = true ∧ ¬ListsUrn urns "urn:b" :=
  ⟨by decide, by decide, rfl, rfl, by decide⟩

end Scim
