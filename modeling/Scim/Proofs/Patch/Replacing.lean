import Scim.Proofs.Patch.Selecting
import Scim.Proofs.Resource.Entries
import Scim.Proofs.Schema.Names

/-!
# Replacing selected elements

A value that replaces selected elements is checked for the sub-attributes that it names: none of them
may be read only, or immutable where a selected element holds it. The elements are then replaced as a
whole, so that a sub-attribute that the value does not name goes with the element, whatever its
mutability.
-/

namespace Scim

open Object

namespace Attribute

/-- Whether an attribute stays as it is once it holds something. -/
def isLasting (definition : Attribute) : Bool :=
  match definition.mutability with
  | .readOnly | .immutable => true
  | .readWrite | .writeOnly => false

/-- The sub-attributes that an element holds and that stay as they are. -/
def lastingSubs (definition : Attribute) (element : Object) : List Attribute :=
  definition.subAttributes.filter fun sub => sub.isLasting && element.has sub.name

end Attribute

/-- The elements of an attribute that a filter selects. -/
def Filter.Finds (filter : Filter) (definition : Attribute) (items : List Json) (element : Object) :
    Prop :=
  Json.object element ∈ items ∧ filter.matchesElement definition (.object element) = true

section Checks

variable {definition sub : Attribute} {entries : Object} {present : Attribute → Bool}

theorem Json.anyHasSub_eq_any (name : String) (items : List Json) :
    anyHasSub name items = items.any (hasSub name) := by
  induction items with
  | nil => rfl
  | cons item rest ih => rw [anyHasSub, List.any_cons, ih]

theorem checkMutable_of_isLasting (lasting : sub.isLasting = true) :
    checkMutable sub true ≠ .ok () := by
  unfold Attribute.isLasting at lasting
  unfold checkMutable
  cases is : sub.mutability with
  | readOnly | immutable => simp
  | readWrite | writeOnly =>
    rw [is] at lasting
    cases lasting

/-- Every sub-attribute that is named has been checked. -/
theorem checkMutable_of_checkEntriesMutable {key : String} {value : Json}
    (checked : checkEntriesMutable definition present entries = .ok ())
    (member : (key, value) ∈ entries) (named : definition.sub? key = some sub) :
    checkMutable sub (present sub) = .ok () := by
  induction entries with
  | nil => cases member
  | cons entry rest ih =>
    rw [checkEntriesMutable] at checked
    rcases List.mem_cons.mp member with rfl | behind
    · simp only [named] at checked
      exact (check_bind_eq_ok_iff.mp checked).1
    · -- The first entry names another sub-attribute, or none.
      split at checked
      · exact ih (check_bind_eq_ok_iff.mp checked).2 behind
      · exact ih checked behind

/-- What is held and has to stay is not named by entries that have been checked. -/
theorem ne_of_checkEntriesMutable {schema : Schema} (valid : schema.validate = .ok ())
    (declared : definition ∈ schema.attributes) (declaredSub : sub ∈ definition.subAttributes)
    (checked : checkEntriesMutable definition present entries = .ok ()) (lasting : sub.isLasting = true)
    (held : present sub = true) : ∀ key ∈ entries.keys, Text.fold key ≠ Text.fold sub.name := by
  intro key member same
  obtain ⟨⟨spelled, value⟩, inEntries, rfl⟩ := List.mem_map.mp member
  have named : definition.sub? spelled = some sub :=
    (Attribute.find?_congr same).trans (Schema.sub?_name valid declared declaredSub)
  have allowed := checkMutable_of_checkEntriesMutable checked inEntries named
  rw [held] at allowed
  exact checkMutable_of_isLasting lasting allowed

end Checks

section Replacing

variable {target : Target} {change : Change} {schema : Schema} {definition sub : Attribute}
  {filter : Filter} {items changed : List Json} {entries element : Object}

/-- **A value that has been accepted names no sub-attribute that stays as it is in a selected
element.** -/
theorem attribute?_of_changeSelected (valid : schema.validate = .ok ())
    (declared : definition ∈ schema.attributes) (same : target.definition = definition)
    (whole : target.sub = none) (written : change.value? = some (.object entries))
    (accepted : changeSelected target (filter.matchesElement definition) change items = .ok changed)
    (selected : filter.Finds definition items element)
    (lasting : sub ∈ definition.lastingSubs element) : entries.attribute? sub.name = none := by
  obtain ⟨declaredSub, stays⟩ := List.mem_filter.mp lasting
  obtain ⟨isLasting, held⟩ := Bool.and_eq_true_iff.mp stays
  simp only [changeSelected, whole, written, same] at accepted
  obtain ⟨checked, _⟩ := check_bind_eq_ok_iff.mp accepted
  -- The check is made for what any of the selected elements holds.
  have present : Json.anyHasSub sub.name (items.filter (filter.matchesElement definition)) = true := by
    rw [Json.anyHasSub_eq_any, List.any_eq_true]
    exact ⟨.object element, List.mem_filter.mpr selected, held⟩
  cases stored : entries.attribute? sub.name with
  | none => rfl
  | some value =>
    obtain ⟨key, member, spelled⟩ := mem_of_attribute? stored
    have different := ne_of_checkEntriesMutable valid declared declaredSub checked isLasting present
    exact absurd spelled (different key (List.mem_map_of_mem member))

end Replacing

/-- What a replacement of selected elements by an object does to a resource. -/
structure Resolved.Replaces (resolved : Resolved) (filter : Filter)
    (entries before after container left : Object) (items : List Json) : Prop where
  selects : resolved.Selects filter none (some (.object entries)) before after container left items
    (items.map fun item =>
      if filter.matchesElement resolved.definition item then .object entries else item)
  /-- What has to stay in a selected element is not written. -/
  unnamed : ∀ element, filter.Finds resolved.definition items element →
    ∀ sub ∈ resolved.definition.lastingSubs element, entries.attribute? sub.name = none
  /-- It stays only where there is nothing of the kind. -/
  stays_iff :
    (∀ element, filter.Finds resolved.definition items element →
      ∀ sub ∈ resolved.definition.lastingSubs element,
        entries.attribute? sub.name = element.attribute? sub.name) ↔
    ∀ element, filter.Finds resolved.definition items element →
      resolved.definition.lastingSubs element = []

/-- **Selected elements are replaced as a whole.** If a replacement of `A[f]` by an object succeeds,
every element of `A` that satisfies `f` has become that object, and the others stay. The object has
been checked by what it names: it names no sub-attribute that is read only, or immutable, and held by
an element that satisfies `f`. All of these sub-attributes are lost, so that they keep their values
only where there are none. -/
theorem patch_replaces_selected (limits : Limits) (view : View) (operation : PatchOperation)
    (reference : Reference) (filter : Filter) (entries : Object) (resource : Json)
    (resolved : Resolved) (valid : ∀ member ∈ view.members, member.schema.validate = .ok ())
    (distinct : resource.isDistinct = true) (replaces : operation.verb = .replace)
    (isPath : operation.path = some { reference, filter := some filter })
    (isValue : operation.value = some (.object entries))
    (plain : reference.sub = none) (bound : view.resolveAttribute? reference = some resolved)
    (done : (patch limits view [operation] resource).error = none) :
    ∃ before after container left items,
      resource = .object before ∧ (patch limits view [operation] resource).resource = .object after ∧
        resolved.Replaces filter entries before after container left items := by
  have whole : resolved.sub = none := by
    rw [View.resolveAttribute?_sub bound, plain]
    rfl
  have writes : operation.written? = some (.object entries) := by
    rw [PatchOperation.written?, replaces, isValue]
    rfl
  obtain ⟨before, after, target, change, rfl, reached, place, same, filtered, _, ⟨_, inner⟩, written,
    applied⟩ := exists_target_of_patch isPath bound done
  obtain ⟨_, container, left, items, changed, accepted, selects⟩ :=
    applyTarget_selects distinct place same filtered whole inner applied
  have noSub : target.sub = none := by
    rw [← whole]
    exact (Except.ok.inj inner).symm
  rw [writes] at written
  obtain rfl := changeSelected_replace noSub written accepted
  rw [written] at selects
  obtain ⟨member_mem, declared⟩ := View.resolveAttribute?_eq_some bound
  have unnamed (element : Object) (found : filter.Finds resolved.definition items element) :
      ∀ sub ∈ resolved.definition.lastingSubs element, entries.attribute? sub.name = none :=
    fun sub lasting =>
      attribute?_of_changeSelected (valid _ member_mem) declared same noSub written accepted found lasting
  refine ⟨before, after, container, left, items, rfl, reached, selects, unnamed, ?_, ?_⟩
  · intro stays element found
    by_contra some
    obtain ⟨sub, lasting⟩ := List.exists_mem_of_ne_nil _ some
    -- What is held is something, and what has not been written is nothing.
    have held := (Bool.and_eq_true_iff.mp (List.mem_filter.mp lasting).2).2
    have gone := (stays element found sub lasting).symm.trans (unnamed element found sub lasting)
    rw [has, gone] at held
    cases held
  · intro none element found sub lasting
    rw [none element found] at lasting
    cases lasting

/-- A name is replaced with its element, which holds nothing that has to stay. -/
theorem patch_replaces_selected_name :
    let members : Attribute :=
      { name := "members", type := .complex, multiValued := true,
        subAttributes := [{ name := "value", mutability := .immutable }, .simple "name" .string] }
    let view := View.ofSchemas { id := "urn:a", attributes := [members] } []
    let other : Json := .object [("value", .string "b")]
    let entries : Object := [("NAME", .string "Grace")]
    let filter : Filter := .compare ⟨none, "name", none⟩ .eq (.string "Ada")
    let operation : PatchOperation :=
      { verb := .replace, path := some { reference := ⟨none, "members", none⟩, filter := some filter },
        value := some (.object entries) }
    let resource : Json := .object [("members", .array [.object [("name", .string "Ada")], other])]
    let outcome := patch {} view [operation] resource
    outcome.error = none ∧
      outcome.resource = .object [("members", .array [.object entries, other])] ∧
      ∃ before after container left items,
        resource = .object before ∧ outcome.resource = .object after ∧
          Resolved.Replaces ⟨view.baseMember, members, none⟩ filter entries before after container left
            items := by
  refine ⟨rfl, rfl, patch_replaces_selected {} _ _ _ _ _ _ _ ?valid rfl rfl rfl rfl rfl rfl rfl⟩
  case valid =>
    intro member member_mem
    rw [List.mem_singleton.mp member_mem]
    rfl

/-- The value of a member must not change, but is lost with the element that held it. -/
theorem patch_replaces_selected_value :
    let members : Attribute :=
      { name := "members", type := .complex, multiValued := true,
        subAttributes :=
          [{ name := "value", mutability := .immutable }, { name := "$ref", mutability := .immutable }] }
    let view := View.ofSchemas { id := "urn:a", attributes := [members] } []
    let element : Object := [("value", .string "a")]
    let entries : Object := [("$ref", .string "b")]
    let filter : Filter := .compare ⟨none, "value", none⟩ .eq (.string "a")
    let operation : PatchOperation :=
      { verb := .replace, path := some { reference := ⟨none, "members", none⟩, filter := some filter },
        value := some (.object entries) }
    let outcome := patch {} view [operation] (.object [("members", .array [.object element])])
    filter.matchesElement members (.object element) = true ∧
      (members.lastingSubs element).map Attribute.name = ["value"] ∧ outcome.error = none ∧
      outcome.resource = .object [("members", .array [.object entries])] ∧
      element.attribute? "value" ≠ entries.attribute? "value" := by
  refine ⟨rfl, rfl, rfl, rfl, ?_⟩
  intro same
  cases same

end Scim
