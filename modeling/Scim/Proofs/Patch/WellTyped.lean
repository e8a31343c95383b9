import Scim.Proofs.Patch.Commits
import Scim.Proofs.Patch.Extension
import Scim.Proofs.Patch.Typing

/-!
# Patches keep resources well-typed

In a well-typed resource the attributes of the base and of the extensions hold values of their types,
and extensions are objects. A patch leaves a well-typed resource behind, whether it succeeds or fails
part-way, and makes new keys only for attributes of the base and for extensions.
-/

namespace Scim

open Object

/-! ### Well-typed resources -/

/-- What may stand under the URN of an extension. -/
inductive Schema.HoldsEntries (schema : Schema) : Json → Prop
  | null : HoldsEntries schema .null
  | object {fields : Object} : schema.Types fields → HoldsEntries schema (.object fields)

/-- The attributes of the base and of the extensions hold what they may, and extensions are objects.
-/
structure View.Types (view : View) (resource : Object) : Prop where
  base : view.base.Types resource
  extensions : ∀ entry ∈ resource, ∀ member, view.extensionFor? entry.1 = some member →
    member.schema.HoldsEntries entry.2

/-- A resource that is no object has no attributes that could be of the wrong type. -/
def View.IsWellTyped (view : View) (resource : Json) : Prop :=
  ∀ object : Object, resource = .object object → view.Types object

/-- The keys that a patch may add: the declared names of attributes of the base, and the URNs of
extensions. -/
def View.DeclaresKey (view : View) (key : String) : Prop :=
  (∃ definition ∈ view.base.attributes, key = definition.name) ∨
    ∃ member ∈ view.extensionMembers, key = member.schema.id

/-- A resource has been left well-typed, and without keys that nobody declares. -/
structure View.KeepsTypes (view : View) (before after : Object) : Prop where
  types : view.Types after
  keys : ∀ key ∈ after.keys, key ∈ before.keys ∨ view.DeclaresKey key

variable {view : View} {member : Member} {before between after : Object}

theorem Schema.Types.puts {schema : Schema} {definition : Attribute} (types : schema.Types before)
    (valid : schema.validate = .ok ()) (declared : definition ∈ schema.attributes)
    (puts : Puts definition.name definition.Holds before after) : schema.Types after := by
  intro entry member other found
  rcases puts.entries entry member with old | ⟨same, holds⟩
  · exact types entry old other found
  · -- The attribute that the new entry names is the one that was written.
    rw [Schema.find?, Attribute.find?_congr same, ← Schema.find?, Schema.find?_name valid declared] at found
    cases found
    exact holds

namespace View.KeepsTypes

theorem refl (types : view.Types before) : view.KeepsTypes before before :=
  ⟨types, fun _ member => .inl member⟩

theorem trans (first : view.KeepsTypes before between) (second : view.KeepsTypes between after) :
    view.KeepsTypes before after := by
  refine ⟨second.types, fun key member => ?_⟩
  rcases second.keys key member with old | declared
  · exact first.keys key old
  · exact .inr declared

/-- Writing an attribute of the base. -/
theorem ofBase (wellFormed : view.WellFormed) (types : view.Types before) {definition : Attribute}
    (declared : definition ∈ view.base.attributes)
    (puts : Puts definition.name definition.Holds before after) : view.KeepsTypes before after := by
  have valid := wellFormed.valid view.baseMember List.mem_cons_self
  refine ⟨⟨types.base.puts valid declared puts, fun entry inAfter member found => ?_⟩,
    fun key inAfter => ?_⟩
  · rcases puts.entries entry inAfter with old | ⟨same, _⟩
    · exact types.extensions entry old member found
    · -- No attribute of the base has the name of an extension.
      have member_mem := extensionFor?_eq_some found
      have sameId := View.fold_id_of_extensionFor? found
      exact absurd (same.symm.trans sameId.symm) (wellFormed.freeUrns definition declared member member_mem)
  · rcases puts.keys key inAfter with old | rfl
    · exact .inl old
    · exact .inr (.inl ⟨definition, declared, rfl⟩)

/-- Putting an object under the URN of an extension. -/
theorem ofExtension (wellFormed : view.WellFormed) (types : view.Types before)
    (member_mem : member ∈ view.extensionMembers)
    (puts : Puts member.schema.id member.schema.HoldsEntries before after) :
    view.KeepsTypes before after := by
  refine ⟨⟨fun entry inAfter definition found => ?_, fun entry inAfter other found => ?_⟩,
    fun key inAfter => ?_⟩
  · rcases puts.entries entry inAfter with old | ⟨same, _⟩
    · exact types.base entry old definition found
    · have free := (wellFormed.free_of_extensionFor? (wellFormed.extensionFor?_eq member_mem same)).2
      rw [free] at found
      cases found
  · rcases puts.entries entry inAfter with old | ⟨same, holds⟩
    · exact types.extensions entry old other found
    · rw [wellFormed.extensionFor?_eq member_mem same] at found
      cases found
      exact holds
  · rcases puts.keys key inAfter with old | rfl
    · exact .inl old
    · exact .inr (.inr ⟨member, member_mem, rfl⟩)

/-- The list of schemas may be changed in any way. -/
theorem ofSchemas (wellFormed : view.WellFormed) (types : view.Types before)
    (change : List Json → List Json) : view.KeepsTypes before (changeSchemas before change) := by
  refine ⟨⟨fun entry inAfter definition found => ?_, fun entry inAfter member found => ?_⟩,
    fun key inAfter => ?_⟩
  · rcases mem_changeSchemas inAfter with old | ⟨_, isSchemas⟩
    · exact types.base entry old definition found
    · rw [(wellFormed.free_of_base_find? found).1] at isSchemas
      cases isSchemas
  · rcases mem_changeSchemas inAfter with old | ⟨_, isSchemas⟩
    · exact types.extensions entry old member found
    · rw [(wellFormed.free_of_extensionFor? found).1] at isSchemas
      cases isSchemas
  · obtain ⟨entry, inObject, rfl⟩ := List.mem_map.mp inAfter
    rcases mem_changeSchemas inObject with old | ⟨there, _⟩
    · exact .inl (List.mem_map_of_mem old)
    · exact .inl there

/-- Dropping an extension. -/
theorem ofRemoval (wellFormed : view.WellFormed) (types : view.Types before)
    (member_mem : member ∈ view.extensionMembers) :
    view.KeepsTypes before
      (unregisterExtension (before.removeAttribute member.schema.id) member.schema.id) := by
  have removed : view.KeepsTypes before (before.removeAttribute member.schema.id) :=
    .ofExtension wellFormed types member_mem .removeAttribute
  exact removed.trans (.ofSchemas wellFormed removed.types _)

end View.KeepsTypes

/-! ### Steps -/

open View

/-- A change that succeeds leaves a well-typed resource well-typed. -/
theorem applyTarget_keepsTypes {target : Target} {change : Change} (wellFormed : view.WellFormed)
    (types : view.Types before) (declared : target.IsDeclared view member)
    (applied : applyTarget target change before = .ok () after) : view.KeepsTypes before after := by
  have valid := wellFormed.valid member declared.member_mem
  obtain ⟨_, checked, applies⟩ := applyTarget_applies applied
  -- What the change does to the object that holds the attribute.
  have puts {container changed : Object} (types : member.schema.Types container)
      (stepped : applyInContainer target change container = .ok () changed) :
      Puts target.definition.name target.definition.Holds container changed :=
    applyInContainer_puts valid declared.definition declared.sub
      (types.holdsIn valid declared.definition) checked (fun filtered => (declared.filter filtered).1)
      stepped
  cases applies with
  | atTop place applied =>
    obtain rfl := declared.eq_baseMember place
    exact .ofBase wellFormed types declared.definition (puts types.base applied)
  | skipped => exact .refl types
  | @inside urn ready container changed place isReady _ stored stepped =>
    obtain ⟨extension, rfl⟩ := declared.mem_extensionMembers place
    -- An object that has just been made is empty, so it is well-typed.
    have entered : view.KeepsTypes before ready := by
      split at isReady
      · have made : view.KeepsTypes before (before.setAttribute member.schema.id (.object [])) :=
          .ofExtension wellFormed types extension
            (.setAttribute (.object fun _ member => absurd member List.not_mem_nil))
        exact isReady ▸ made.trans (.ofSchemas wellFormed made.types _)
      · exact isReady ▸ .refl types
    have inside : member.schema.Types container := by
      obtain ⟨key, inReady, same⟩ := mem_of_slot? stored
      have found := wellFormed.extensionFor?_eq extension same
      cases entered.types.extensions _ inReady member found with
      | object types => exact types
    have left := inside.puts valid declared.definition (puts inside stepped)
    have put : view.KeepsTypes ready (ready.replaceSlot member.schema.id (.object changed)) :=
      .ofExtension wellFormed entered.types extension (.replaceSlot (.object left))
    refine (entered.trans put).trans ?_
    unfold tidyExtension
    split
    · split
      · exact .refl put.types
      · exact .ofRemoval wellFormed put.types extension
    · exact .refl put.types

theorem removeExtension_keepsTypes (wellFormed : view.WellFormed) (types : view.Types before)
    (member_mem : member ∈ view.extensionMembers)
    (done : removeExtension member.schema before = .ok () after) : view.KeepsTypes before after := by
  simp only [removeExtension, step_bind_eq_ok_iff, step_get_eq_ok_iff, step_check_eq_ok_iff,
    step_modify_eq_ok_iff] at done
  obtain ⟨_, _, ⟨rfl, rfl⟩, _, _, ⟨_, rfl⟩, removed⟩ := done
  split at removed
  · exact removed ▸ .ofRemoval wellFormed types member_mem
  · exact removed ▸ .refl types

/-- Every step keeps a well-typed resource well-typed. -/
theorem isKept_keepsTypes (wellFormed : view.WellFormed) :
    view.IsKept fun before after => view.Types before → view.KeepsTypes before after where
  refl _ := .refl
  trans first second types :=
    have keeps := first types
    keeps.trans (second keeps.types)
  change declared _ _ applied types := applyTarget_keepsTypes wellFormed types declared applied
  removal member_mem _ _ done types := removeExtension_keepsTypes wellFormed types member_mem done

/-! ### Patches -/

/-- The keys of a resource, if it is an object. -/
def Json.keys (value : Json) : List String := (value.object?.getD []).keys

/-- **Patching keeps resources well-typed**: whatever the operations of a patch are, and wherever it
fails, a well-typed resource stays well-typed. A key that it did not have before is the declared name
of an attribute of the base, or the URN of an extension. -/
theorem patch_keepsTypes (limits : Limits) (view : View) (operations : List PatchOperation)
    (resource : Json) (wellFormed : view.WellFormed) (wellTyped : view.IsWellTyped resource) :
    view.IsWellTyped (patch limits view operations resource).resource ∧
      ∀ key ∈ (patch limits view operations resource).resource.keys,
        key ∈ resource.keys ∨ view.DeclaresKey key := by
  cases resource with
  | object object =>
    obtain ⟨final, reached, related⟩ := (isKept_keepsTypes wellFormed).patch limits object operations
    have keeps := related (wellTyped object rfl)
    rw [reached]
    refine ⟨fun left same => ?_, keeps.keys⟩
    cases same
    exact keeps.types
  | _ =>
    -- What is no object is never changed.
    rw [resource_patch_of_not_object rfl]
    exact ⟨wellTyped, fun key member => .inl member⟩

/-- An extension is made for the first operation; the second one gives a sub-attribute a value of the
wrong type and changes nothing. -/
theorem patch_keepsTypes_partway :
    let name : Attribute :=
      { name := "name", type := .complex, subAttributes := [.simple "given" .string] }
    let view := View.ofSchemas { id := "urn:a", attributes := [name] }
      [{ id := "urn:b", attributes := [.simple "badge" .integer] }]
    let resource : Json := .object [("name", .object [("given", .string "x")]), ("note", .bool true)]
    let operations : List PatchOperation :=
      [{ verb := .add, path := some { reference := ⟨some "urn:b", "badge", none⟩ }
         value := some (.number (.integer 7)) },
        { verb := .replace, path := some { reference := ⟨none, "name", none⟩ }
          value := some (.object [("given", .bool false)]) }]
    let result := (patch {} view operations resource).resource
    result = .object [("name", .object [("given", .string "x")]), ("note", .bool true),
        ("urn:b", .object [("badge", .number (.integer 7))])] ∧
      view.IsWellTyped result ∧ ∀ key ∈ result.keys, key ∈ resource.keys ∨ view.DeclaresKey key := by
  refine ⟨rfl, patch_keepsTypes {} _ _ _ (by decide) ?wellTyped⟩
  intro object same
  cases same
  constructor
  · intro entry member definition found
    rcases List.mem_cons.mp member with rfl | member
    · cases found
      exact .single rfl rfl
    · rw [List.mem_singleton.mp member] at found
      cases found
  · intro entry member extension found
    rcases List.mem_cons.mp member with rfl | member
    · cases found
    · rw [List.mem_singleton.mp member] at found
      cases found

end Scim
