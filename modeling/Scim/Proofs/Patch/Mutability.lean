import Scim.Proofs.Patch.Commits
import Scim.Proofs.Patch.Protected

/-!
# Patches keep protected attributes

Every step of an operation keeps the attributes that are read only, and those that are immutable and
hold something; so does every operation that succeeds. As operations that fail change nothing, a
patch keeps these attributes whether it succeeds or not.
-/

namespace Scim

variable {view : View} {before after : Object}

/-! ### Changes to attributes -/

theorem applyTarget_keeps {target : Target} {change : Change} {member : Member}
    (wellFormed : view.WellFormed) (unambiguous : view.Unambiguous before)
    (declared : target.IsDeclared view member)
    (applied : applyTarget target change before = .ok () after) : view.Keeps before after := by
  obtain ⟨_, _, applies⟩ := applyTarget_applies applied
  -- Attributes of the base stand in the resource itself, those of an extension in its object.
  cases applies with
  | atTop place applied =>
    obtain rfl := declared.eq_baseMember place
    exact .of_writes wellFormed unambiguous declared.definition
      (applyInContainer_writes unambiguous.top applied)
  | skipped => exact .refl unambiguous
  | inside place isReady _ stored stepped =>
    obtain ⟨extension, rfl⟩ := declared.mem_extensionMembers place
    exact .of_inside wellFormed unambiguous extension declared.definition isReady stored
      fun inside => applyInContainer_writes inside stepped

/-! ### Removing an extension -/

theorem checkMutable_of_checkRemovable {stored : Object} {attributes : List Attribute}
    {definition : Attribute} (checked : checkRemovable stored attributes = .ok ())
    (member : definition ∈ attributes) (present : stored.has definition.name = true) :
    checkMutable definition true = .ok () := by
  induction attributes with
  | nil => cases member
  | cons head rest ih =>
    rw [checkRemovable] at checked
    split at checked
    next headPresent =>
      obtain ⟨_, allowed, others⟩ := bind_eq_ok_iff.mp checked
      rcases List.mem_cons.mp member with rfl | behind
      · exact allowed
      · exact ih others behind
    next headAbsent =>
      -- What holds nothing is passed over.
      obtain ⟨_, _, others⟩ := bind_eq_ok_iff.mp checked
      rcases List.mem_cons.mp member with rfl | behind
      · exact absurd present headAbsent
      · exact ih others behind

/-- An extension is removed only if nothing in it has to be kept. -/
theorem removeExtension_keeps {member : Member} (wellFormed : view.WellFormed)
    (unambiguous : view.Unambiguous before) (member_mem : member ∈ view.extensionMembers)
    (done : removeExtension member.schema before = .ok () after) : view.Keeps before after := by
  simp only [removeExtension, step_bind_eq_ok_iff, step_get_eq_ok_iff, step_check_eq_ok_iff,
    step_modify_eq_ok_iff] at done
  obtain ⟨_, _, ⟨rfl, rfl⟩, _, _, ⟨checked, rfl⟩, removed⟩ := done
  split at removed
  · subst removed
    obtain ⟨changes, gone⟩ := removeEntry_spec member.schema.id unambiguous.top
    refine .of_changesExtension wellFormed unambiguous member_mem changes ?_ ?_
    · intro container stays
      rw [gone] at stays
      cases stays
    · intro definition declared
      rw [wellFormed.value?_eq member_mem, wellFormed.value?_eq member_mem, gone]
      cases stored : before.attribute? member.schema.id with
      | none => exact .of_eq rfl
      | some value =>
        rw [stored] at checked
        cases value with
        | object container =>
          -- Everything that the object holds has been found removable.
          by_cases present : Object.has container definition.name = true
          · have allowed := checkMutable_of_checkRemovable checked declared present
            rw [← present] at allowed
            exact .of_allowed allowed
          · exact .of_absent (Bool.eq_false_iff.mpr present) rfl
        | _ => exact .of_eq rfl
  · exact removed ▸ .refl unambiguous

/-! ### Operations -/

/-- Every step keeps the attributes of a resource in which no name is ambiguous, and leaves no name
ambiguous. -/
theorem isKept_keeps (wellFormed : view.WellFormed) :
    view.IsKept fun before after => view.Unambiguous before → view.Keeps before after where
  refl _ := .refl
  trans first second unambiguous :=
    have keeps := first unambiguous
    keeps.trans (second keeps.unambiguous)
  change declared _ _ applied unambiguous :=
    applyTarget_keeps wellFormed unambiguous declared applied
  removal member_mem _ _ done unambiguous :=
    removeExtension_keeps wellFormed unambiguous member_mem done

theorem ofOperations_keeps (wellFormed : view.WellFormed) {resource : Object}
    (unambiguous : view.Unambiguous resource) (operations : List PatchOperation) :
    ∃ final, (PatchOutcome.ofOperations view (.object resource) operations).resource = .object final ∧
      view.Keeps resource final := by
  obtain ⟨final, reached, keeps⟩ := (isKept_keeps wellFormed).operations resource operations
  exact ⟨final, reached, keeps unambiguous⟩

/-- Neither an object nor the object of an extension in it has two keys that are the same up to
case. -/
def View.IsDistinct (view : View) (resource : Json) : Prop :=
  ∀ object : Object, resource = .object object → object.Distinct ∧
    ∀ member ∈ view.extensionMembers, ∀ container : Object,
      object.attribute? member.schema.id = some (.object container) → container.Distinct

theorem View.IsDistinct.unambiguous {object : Object} (distinct : view.IsDistinct (.object object)) :
    view.Unambiguous object := by
  obtain ⟨top, extensions⟩ := distinct object rfl
  exact ⟨top.unambiguous, fun member member_mem container stored =>
    (extensions member member_mem container stored).unambiguous⟩

/-- The stored value of an attribute, if the resource is an object. -/
def Member.stored? (member : Member) (definition : Attribute) (resource : Json) : Option Json :=
  resource.object?.bind (member.value? definition)

/-- **Mutability is never bypassed**: whatever the operations of a patch are, and wherever it fails,
an attribute that is read only keeps its value and does not get one, and an attribute that is
immutable keeps its value. -/
theorem patch_keeps (limits : Limits) (view : View) (operations : List PatchOperation) (resource : Json)
    (wellFormed : view.WellFormed) (distinct : view.IsDistinct resource) :
    ∀ member ∈ view.members, ∀ definition ∈ member.schema.attributes,
      let before := member.stored? definition resource
      let after := member.stored? definition (patch limits view operations resource).resource
      (definition.mutability = .readOnly ∨ definition.mutability = .immutable →
        before.any Json.isPresent = true → after = before) ∧
      (definition.mutability = .readOnly →
        before.any Json.isPresent = false → after.any Json.isPresent = false) := by
  intro member member_mem definition declared
  suffices keeps : definition.Keeps (member.stored? definition resource)
      (member.stored? definition (patch limits view operations resource).resource) from
    ⟨keeps.present, keeps.absent⟩
  unfold patch
  split
  · exact .of_eq rfl
  · cases resource with
    | object object =>
      obtain ⟨final, reached, keeps⟩ := ofOperations_keeps wellFormed distinct.unambiguous operations
      rw [reached]
      exact keeps.values member member_mem definition declared
    | _ => exact .of_eq (congrArg _ (ofOperations_of_not_object rfl operations))

/-- The badge cannot be taken away with its extension, and what comes before the attempt stays. -/
theorem patch_keeps_badge :
    let extension : Schema :=
      { id := "urn:b", attributes := [{ name := "badge", mutability := .immutable }] }
    let view := View.ofSchemas { id := "urn:a", attributes := [.simple "name" .string] } [extension]
    let resource : Json := .object [("urn:b", .object [("badge", .string "7")])]
    let operations : List PatchOperation :=
      [{ verb := .add, value := some (.object [("name", .string "x")]) },
        { verb := .remove, path := some { reference := ⟨some "urn", "b", none⟩ } }]
    (patch {} view operations resource).error.isSome = true ∧
      Member.stored? ⟨.extension 0, extension⟩ { name := "badge", mutability := .immutable }
        (patch {} view operations resource).resource = some (.string "7") := by
  refine ⟨rfl, (patch_keeps {} _ _ _ ?wellFormed ?distinct ⟨.extension 0, _⟩
    (List.mem_cons_of_mem _ List.mem_cons_self) _ List.mem_cons_self).1 (.inr rfl) rfl⟩
  case wellFormed =>
    refine ⟨?_, by decide, by decide, by decide, by decide⟩
    intro member member_mem
    rcases List.mem_cons.mp member_mem with rfl | member_mem
    · rfl
    · rw [List.mem_singleton.mp member_mem]
      rfl
  case distinct =>
    intro object same
    cases same
    refine ⟨by decide, fun member member_mem container stored => ?_⟩
    rw [List.mem_singleton.mp member_mem] at stored
    cases stored
    decide

end Scim
