import Scim.Proofs.Patch.Extension

/-!
# Attributes that clients must not change

An attribute that is read only is never written, and one that is immutable is written only as long
as it holds nothing. Each way in which an operation writes keeps to this; what carries it from step
to step is that no name stands under two spellings, at the top level or in the object of an
extension, so that the check and the write look at the same value.
-/

namespace Scim

open Object

/-! ### One attribute -/

/-- What may become of the value of an attribute. -/
structure Attribute.Keeps (definition : Attribute) (before after : Option Json) : Prop where
  /-- A value that is there stays as it is. -/
  present : definition.mutability = .readOnly ∨ definition.mutability = .immutable →
    before.any Json.isPresent = true → after = before
  /-- A value that is not there does not appear. -/
  absent : definition.mutability = .readOnly →
    before.any Json.isPresent = false → after.any Json.isPresent = false

namespace Attribute.Keeps

variable {definition : Attribute} {before between after : Option Json}

theorem of_eq (same : after = before) : definition.Keeps before after :=
  ⟨fun _ _ => same, fun _ none => same ▸ none⟩

theorem trans (first : definition.Keeps before between) (second : definition.Keeps between after) :
    definition.Keeps before after := by
  constructor
  · intro isProtected present
    have same := first.present isProtected present
    rw [← same] at present
    exact (second.present isProtected present).trans same
  · intro readOnly none
    exact second.absent readOnly (first.absent readOnly none)

/-- Values that hold nothing may be exchanged. -/
theorem of_absent (none : before.any Json.isPresent = false)
    (noneAfter : after.any Json.isPresent = false) : definition.Keeps before after := by
  constructor
  · intro _ present
    rw [none] at present
    cases present
  · exact fun _ _ => noneAfter

/-- Where writing is allowed there is nothing to keep. -/
theorem of_allowed (allowed : checkMutable definition (before.any Json.isPresent) = .ok ()) :
    definition.Keeps before after := by
  unfold checkMutable at allowed
  constructor
  · intro isProtected present
    rcases isProtected with is | is
    · rw [is] at allowed
      cases allowed
    · simp only [is, present, if_true] at allowed
      cases allowed
  · intro is _
    rw [is] at allowed
    cases allowed

end Attribute.Keeps

/-- Of the attributes of a schema only the one that is written can change, and that one may be
written. -/
theorem Writes.keeps {schema : Schema} {definition other : Attribute} {before after : Object}
    (writes : Writes definition before after) (valid : schema.validate = .ok ())
    (declared : definition ∈ schema.attributes) (otherDeclared : other ∈ schema.attributes) :
    other.Keeps (before.attribute? other.name) (after.attribute? other.name) := by
  by_cases same : Text.fold other.name = Text.fold definition.name
  · -- The attribute that is written is the one whose mutability was checked.
    obtain rfl := Schema.eq_of_fold_name_eq valid otherDeclared declared same
    exact .of_allowed writes.allowed
  · exact .of_eq (writes.changes.others other.name same)

/-! ### All attributes of a resource -/

/-- The stored value of an attribute of a member. -/
def Member.value? (member : Member) (definition : Attribute) (resource : Object) : Option Json :=
  (⟨member, definition, none⟩ : Resolved).value? resource

namespace View

variable {view : View} {before between after : Object}

/-- No name stands under two spellings, at the top level or in the object of an extension. -/
structure Unambiguous (view : View) (resource : Object) : Prop where
  top : resource.Unambiguous
  extensions : ∀ member ∈ view.extensionMembers, ∀ container,
    resource.attribute? member.schema.id = some (.object container) → Object.Unambiguous container

/-- The object that an extension has, or is given, is unambiguous. -/
theorem Unambiguous.container {resource : Object} (unambiguous : view.Unambiguous resource)
    {member : Member} (member_mem : member ∈ view.extensionMembers) :
    Object.Unambiguous (((resource.attribute? member.schema.id).bind Json.object?).getD []) := by
  cases stored : resource.attribute? member.schema.id with
  | none => exact Object.unambiguous_nil
  | some value =>
    cases value with
    | object container => exact unambiguous.extensions member member_mem container stored
    | _ => exact Object.unambiguous_nil

/-- No attribute has become what it must not become. -/
structure Keeps (view : View) (before after : Object) : Prop where
  unambiguous : view.Unambiguous after
  values : ∀ member ∈ view.members, ∀ definition ∈ member.schema.attributes,
    definition.Keeps (member.value? definition before) (member.value? definition after)

namespace Keeps

theorem refl (unambiguous : view.Unambiguous before) : view.Keeps before before :=
  ⟨unambiguous, fun _ _ _ _ => .of_eq rfl⟩

theorem trans (first : view.Keeps before between) (second : view.Keeps between after) :
    view.Keeps before after :=
  ⟨second.unambiguous, fun member member_mem definition declared =>
    (first.values member member_mem definition declared).trans
      (second.values member member_mem definition declared)⟩

end Keeps

theorem WellFormed.value?_eq (wellFormed : view.WellFormed) {member : Member}
    (member_mem : member ∈ view.extensionMembers) (definition : Attribute) (resource : Object) :
    member.value? definition resource =
      Object.attribute? (((resource.attribute? member.schema.id).bind Json.object?).getD [])
        definition.name := by
  rw [Member.value?, Resolved.value?_eq]
  simp only [Resolved.container?, wellFormed.key?_eq member_mem]

/-! ### Writing at the top level -/

/-- Writing an attribute of the base where that is allowed. -/
theorem Keeps.of_writes (wellFormed : view.WellFormed) (unambiguous : view.Unambiguous before)
    {definition : Attribute} (declared : definition ∈ view.base.attributes)
    (writes : Writes definition before after) : view.Keeps before after := by
  have sameExtension (member : Member) (member_mem : member ∈ view.extensionMembers) :
      after.attribute? member.schema.id = before.attribute? member.schema.id :=
    writes.changes.others member.schema.id fun same =>
      wellFormed.freeUrns definition declared member member_mem same.symm
  refine ⟨⟨writes.changes.unambiguous, fun member member_mem container stored => ?_⟩,
    fun member member_mem other otherDeclared => ?_⟩
  · exact unambiguous.extensions member member_mem container (sameExtension member member_mem ▸ stored)
  · rcases mem_members_iff.mp member_mem with rfl | extension
    · exact writes.keeps (wellFormed.valid view.baseMember List.mem_cons_self) declared otherDeclared
    · rw [wellFormed.value?_eq extension, wellFormed.value?_eq extension, sameExtension member extension]
      exact .of_eq rfl

end View

/-! ### Writing in the object of an extension -/

namespace View

variable {view : View} {member : Member} {before after : Object}

/-- A change to one extension keeps all attributes if it keeps those of the extension. -/
theorem Keeps.of_changesExtension (wellFormed : view.WellFormed) (unambiguous : view.Unambiguous before)
    (member_mem : member ∈ view.extensionMembers)
    (changes : ChangesExtension member.schema.id before after)
    (inside : ∀ container : Object, after.attribute? member.schema.id = some (.object container) →
      container.Unambiguous)
    (values : ∀ definition ∈ member.schema.attributes,
      definition.Keeps (member.value? definition before) (member.value? definition after)) :
    view.Keeps before after := by
  have mem_members {other : Member} (other_mem : other ∈ view.extensionMembers) : other ∈ view.members :=
    mem_members_of_mem_extensionMembers other_mem
  -- The other extensions stand under other keys.
  have sameExtension (other : Member) (other_mem : other ∈ view.extensionMembers)
      (different : other ≠ member) :
      after.attribute? other.schema.id = before.attribute? other.schema.id := by
    have notSchemas := wellFormed.notSchemas other (mem_members other_mem)
    refine changes.others _ (fun same => different ?_) notSchemas
    exact wellFormed.eq_of_fold_id_eq (mem_members other_mem) (mem_members member_mem) same
  refine ⟨⟨changes.unambiguous, fun other other_mem container stored => ?_⟩,
    fun other other_mem definition declared => ?_⟩
  · by_cases equal : other = member
    · exact inside container (equal ▸ stored)
    · rw [sameExtension other other_mem equal] at stored
      exact unambiguous.extensions other other_mem container stored
  · rcases mem_members_iff.mp other_mem with rfl | extension
    · refine .of_eq (changes.others definition.name ?_ (wellFormed.freeSchemas definition declared))
      exact wellFormed.freeUrns definition declared member member_mem
    · by_cases equal : other = member
      · subst equal
        exact values definition declared
      · rw [wellFormed.value?_eq extension, wellFormed.value?_eq extension,
          sameExtension other extension equal]
        exact .of_eq rfl

/-- A write to the object of an extension, where that is allowed, keeps all attributes, whether the
object had to be made for it and whether it is left empty by it. -/
theorem Keeps.of_inside (wellFormed : view.WellFormed) (unambiguous : view.Unambiguous before)
    (member_mem : member ∈ view.extensionMembers) {definition : Attribute}
    (declared : definition ∈ member.schema.attributes) {ready container changed : Object}
    (isReady : (if (before.attribute? member.schema.id).all Json.isNull then
      createExtension member.schema.id before else before) = ready)
    (stored : ready.slot? member.schema.id = some (.object container))
    (writes : container.Unambiguous → Writes definition container changed) :
    view.Keeps before
      (tidyExtension (ready.replaceSlot member.schema.id (.object changed)) member.schema.id) := by
  obtain ⟨rfl, changes, outcome⟩ := leaveExtension_spec unambiguous.top isReady stored changed
  have writes := writes (unambiguous.container member_mem)
  refine .of_changesExtension wellFormed unambiguous member_mem changes ?_ ?_
  · intro container stays
    rw [outcome] at stays
    split at stays
    · cases stays
      exact writes.changes.unambiguous
    · cases stays
  · intro other otherDeclared
    have valid := wellFormed.valid member (mem_members_of_mem_extensionMembers member_mem)
    have keeps := writes.keeps valid declared otherDeclared
    rw [wellFormed.value?_eq member_mem, wellFormed.value?_eq member_mem, outcome]
    split
    · exact keeps
    next empty =>
      -- An object that is tidied away holds nothing, so nothing is lost with it.
      have nothing : (changed.attribute? other.name).any Json.isPresent = false :=
        Bool.eq_false_iff.mpr fun present => empty (holdsAny_of_has present)
      exact keeps.trans (.of_absent nothing rfl)

end View

end Scim
