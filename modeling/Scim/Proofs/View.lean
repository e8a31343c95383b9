import Scim.Proofs.Schema.Names
import Scim.View

/-!
# What references are bound to

A reference is bound to an attribute that one of the schemas of the view declares. In a well-formed
view the places of attributes are kept apart: no two schemas share a URN, and no attribute of the
base has the name of another entry of the resource.
-/

namespace Scim

/-- The value of an attribute is read in the object that may hold it, or in an empty one. -/
theorem Resolved.value?_eq (resolved : Resolved) (resource : Object) :
    resolved.value? resource =
      Object.attribute? ((resolved.container? resource).getD []) resolved.definition.name := by
  unfold Resolved.value?
  cases resolved.container? resource <;> rfl

/-- An attribute stands in the resource itself, or in the object of an extension. -/
theorem Resolved.container?_eq_some {resolved : Resolved} {resource container : Object}
    (found : resolved.container? resource = some container) :
    resolved.member.key? = none ∧ container = resource ∨
      ∃ urn, resolved.member.key? = some urn ∧ resource.attribute? urn = some (.object container) := by
  unfold container? at found
  cases key : resolved.member.key? with
  | none =>
    rw [key] at found
    exact .inl ⟨rfl, (Option.some.inj found).symm⟩
  | some urn =>
    rw [key] at found
    obtain ⟨value, stored, isObject⟩ := Option.bind_eq_some_iff.mp found
    cases value with
    | object fields =>
      cases isObject
      exact .inr ⟨urn, rfl, stored⟩
    | _ => cases isObject

namespace View

variable {view : View} {reference : Reference} {resolved : Resolved} {member : Member}

/-- The base and the extensions have passed their checks, and all keys of a resource that they use
are different: the names of the attributes of the base, the URNs of the extensions, and `schemas`.
-/
structure WellFormed (view : View) : Prop where
  valid : ∀ member ∈ view.members, member.schema.validate = .ok ()
  apart : view.members.Pairwise fun first second =>
    Text.fold first.schema.id ≠ Text.fold second.schema.id
  notSchemas : ∀ member ∈ view.members, Text.fold member.schema.id ≠ Text.fold "schemas"
  freeSchemas : ∀ definition ∈ view.base.attributes, Text.fold definition.name ≠ Text.fold "schemas"
  freeUrns : ∀ definition ∈ view.base.attributes, ∀ member ∈ view.extensionMembers,
    Text.fold definition.name ≠ Text.fold member.schema.id

instance (schema : Schema) : Decidable (schema.validate = .ok ()) :=
  match schema.validate with
  | .ok () => isTrue rfl
  | .error _ => isFalse nofun

/-- Whether a view is well-formed can be computed. -/
instance (view : View) : Decidable view.WellFormed :=
  decidable_of_iff
    ((∀ member ∈ view.members, member.schema.validate = .ok ()) ∧
      (view.members.Pairwise fun first second =>
        Text.fold first.schema.id ≠ Text.fold second.schema.id) ∧
      (∀ member ∈ view.members, Text.fold member.schema.id ≠ Text.fold "schemas") ∧
      (∀ definition ∈ view.base.attributes, Text.fold definition.name ≠ Text.fold "schemas") ∧
      ∀ definition ∈ view.base.attributes, ∀ member ∈ view.extensionMembers,
        Text.fold definition.name ≠ Text.fold member.schema.id)
    ⟨fun ⟨valid, apart, notSchemas, freeSchemas, freeUrns⟩ =>
      ⟨valid, apart, notSchemas, freeSchemas, freeUrns⟩,
      fun ⟨valid, apart, notSchemas, freeSchemas, freeUrns⟩ =>
        ⟨valid, apart, notSchemas, freeSchemas, freeUrns⟩⟩

theorem mem_members_of_mem_extensionMembers (member_mem : member ∈ view.extensionMembers) :
    member ∈ view.members :=
  List.mem_cons_of_mem _ member_mem

/-- What is looked up in a schema are the attribute of the name and, of that, the sub-attribute. -/
theorem resolveIn?_eq_some (bound : resolveIn? reference member = some resolved) :
    resolved.member = member ∧ member.schema.find? reference.name = some resolved.definition ∧
      resolved.sub = reference.sub.bind resolved.definition.sub? := by
  simp only [resolveIn?, Option.bind_eq_bind, Option.bind_eq_some_iff] at bound
  obtain ⟨definition, found, bound⟩ := bound
  cases sub : reference.sub with
  | none =>
    rw [sub] at bound
    cases bound
    exact ⟨rfl, found, rfl⟩
  | some name =>
    rw [sub] at bound
    obtain ⟨inner, foundSub, bound⟩ := Option.bind_eq_some_iff.mp bound
    cases bound
    exact ⟨rfl, found, foundSub.symm⟩

/-- A member is the base or an extension. -/
theorem mem_members_iff {member : Member} :
    member ∈ view.members ↔ member = view.baseMember ∨ member ∈ view.extensionMembers :=
  List.mem_cons

/-- A reference is looked up in one of the schemas of the view. -/
theorem exists_resolveIn?_eq_some (bound : view.resolveAttribute? reference = some resolved) :
    ∃ member ∈ view.members, resolveIn? reference member = some resolved := by
  unfold resolveAttribute? at bound
  -- A URN picks the schema; without one the first schema that knows the names is taken.
  cases urn : reference.urn with
  | some id =>
    rw [urn] at bound
    obtain ⟨member, found, bound⟩ := Option.bind_eq_some_iff.mp bound
    exact ⟨member, List.mem_of_find?_eq_some found, bound⟩
  | none =>
    rw [urn] at bound
    exact List.exists_of_findSome?_eq_some bound

/-- A reference is bound to an attribute of a schema of the view. -/
theorem resolveAttribute?_eq_some (bound : view.resolveAttribute? reference = some resolved) :
    resolved.member ∈ view.members ∧ resolved.definition ∈ resolved.member.schema.attributes := by
  obtain ⟨member, member_mem, bound⟩ := exists_resolveIn?_eq_some bound
  obtain ⟨rfl, found, _⟩ := resolveIn?_eq_some bound
  exact ⟨member_mem, (Attribute.find?_eq_some found).1⟩

/-- A reference has a sub-attribute that the attribute declares, or none. -/
theorem resolveAttribute?_sub (bound : view.resolveAttribute? reference = some resolved) :
    resolved.sub = reference.sub.bind resolved.definition.sub? := by
  obtain ⟨_, _, bound⟩ := exists_resolveIn?_eq_some bound
  exact (resolveIn?_eq_some bound).2.2

theorem resolveIn?_withSub (name : String) (member : Member) (whole : reference.sub = none) :
    resolveIn? (reference.withSub name) member =
      (resolveIn? reference member).bind fun resolved =>
        (resolved.definition.sub? name).map fun sub => { resolved with sub := some sub } := by
  simp only [resolveIn?, Reference.withSub, whole]
  cases member.schema.find? reference.name with
  | none => rfl
  | some definition => cases named : definition.sub? name <;> simp [named]

section Sub

variable {name : String} {sub : Attribute}

theorem resolveIn?_withSub_eq_some (whole : reference.sub = none)
    (named : resolved.definition.sub? name = some sub)
    (bound : resolveIn? reference member = some resolved) :
    resolveIn? (reference.withSub name) member = some { resolved with sub := some sub } := by
  rw [resolveIn?_withSub name member whole, bound, Option.bind_some, named, Option.map_some]

/-- The schemas that do not know an attribute do not know its sub-attribute either. -/
theorem findSome?_resolveIn?_withSub {members : List Member} (whole : reference.sub = none)
    (named : resolved.definition.sub? name = some sub)
    (bound : members.findSome? (resolveIn? reference) = some resolved) :
    members.findSome? (resolveIn? (reference.withSub name)) =
      some { resolved with sub := some sub } := by
  induction members with
  | nil => cases bound
  | cons member rest ih =>
    rw [List.findSome?_cons] at bound ⊢
    cases here : resolveIn? reference member with
    | none =>
      rw [here] at bound
      rw [resolveIn?_withSub name member whole, here]
      exact ih bound
    | some first =>
      rw [here] at bound
      cases bound
      rw [resolveIn?_withSub_eq_some whole named here]

/-- A sub-attribute is looked up where its attribute is found. -/
theorem resolveAttribute?_withSub (whole : reference.sub = none)
    (named : resolved.definition.sub? name = some sub)
    (bound : view.resolveAttribute? reference = some resolved) :
    view.resolveAttribute? (reference.withSub name) = some { resolved with sub := some sub } := by
  have sameUrn : (reference.withSub name).urn = reference.urn := rfl
  unfold resolveAttribute? at bound ⊢
  rw [sameUrn]
  cases urn : reference.urn with
  | some id =>
    rw [urn] at bound
    obtain ⟨member, isMember, bound⟩ := Option.bind_eq_some_iff.mp bound
    exact Option.bind_eq_some_iff.mpr ⟨member, isMember, resolveIn?_withSub_eq_some whole named bound⟩
  | none =>
    rw [urn] at bound
    exact findSome?_resolveIn?_withSub whole named bound

end Sub

theorem extensionFor?_eq_some {key : String} (found : view.extensionFor? key = some member) :
    member ∈ view.extensionMembers :=
  List.mem_of_find?_eq_some found

theorem fold_id_of_extensionFor? {key : String} {member : Member}
    (found : view.extensionFor? key = some member) : Text.fold member.schema.id = Text.fold key := by
  simpa [Text.sameName_iff] using List.find?_some found

theorem extensionFor?_congr {key other : String} (same : Text.fold key = Text.fold other) :
    view.extensionFor? key = view.extensionFor? other := by
  simp [extensionFor?, Text.sameName, same]

/-- Where the URNs of the extensions are kept apart, each of them is found under its own. -/
theorem extensionFor?_of_pairwise
    (apart : view.extensionMembers.Pairwise fun first second =>
      Text.fold first.schema.id ≠ Text.fold second.schema.id)
    (member_mem : member ∈ view.extensionMembers) {key : String}
    (same : Text.fold key = Text.fold member.schema.id) : view.extensionFor? key = some member :=
  (find?_key_iff apart).mpr ⟨member_mem, same.symm⟩

theorem resolve?_eq_extension (bound : view.resolve? reference = some (.extension member)) :
    member ∈ view.extensionMembers := by
  unfold resolve? at bound
  cases found : reference.asSchemaUrn?.bind view.extensionFor? with
  | none =>
    rw [found] at bound
    obtain ⟨_, _, impossible⟩ := Option.map_eq_some_iff.mp bound
    cases impossible
  | some extension =>
    rw [found] at bound
    cases bound
    obtain ⟨_, _, found⟩ := Option.bind_eq_some_iff.mp found
    exact extensionFor?_eq_some found

theorem resolve?_eq_definition (bound : view.resolve? reference = some (.definition resolved)) :
    view.resolveAttribute? reference = some resolved := by
  unfold resolve? at bound
  cases found : reference.asSchemaUrn?.bind view.extensionFor? with
  | none =>
    rw [found] at bound
    obtain ⟨_, bound, same⟩ := Option.map_eq_some_iff.mp bound
    cases same
    exact bound
  | some extension =>
    rw [found] at bound
    cases bound

/-! ### Places -/

/-- Only the base itself stands at the top level. -/
theorem schema_of_mem_placed {base : Schema} {index : Nat} {extensions : List Extension}
    (member_mem : member ∈ placed base index extensions) (atBase : member.place = .base) :
    member.schema = base := by
  induction extensions generalizing index with
  | nil => cases member_mem
  | cons extension rest ih =>
    cases extension with
    | schema schema =>
      rcases List.mem_cons.mp member_mem with rfl | behind
      · cases atBase
      · exact ih behind
    | base =>
      rcases List.mem_cons.mp member_mem with rfl | behind
      · rfl
      · exact ih behind

/-- The places of extensions are counted from the first one. -/
theorem le_of_mem_placed {base : Schema} {index found : Nat} {extensions : List Extension}
    (member_mem : member ∈ placed base index extensions) (atPlace : member.place = .extension found) :
    index ≤ found := by
  induction extensions generalizing index with
  | nil => cases member_mem
  | cons extension rest ih =>
    cases extension with
    | schema schema =>
      rcases List.mem_cons.mp member_mem with rfl | behind
      · cases atPlace
        exact Nat.le_refl _
      · exact Nat.le_of_succ_le (ih behind)
    | base =>
      rcases List.mem_cons.mp member_mem with rfl | behind
      · cases atPlace
      · exact Nat.le_of_succ_le (ih behind)

theorem eq_of_mem_placed {base : Schema} {index found : Nat} {extensions : List Extension}
    {first second : Member} (first_mem : first ∈ placed base index extensions)
    (second_mem : second ∈ placed base index extensions) (atPlace : first.place = .extension found)
    (atPlaceSecond : second.place = .extension found) : first = second := by
  induction extensions generalizing index with
  | nil => cases first_mem
  | cons extension rest ih =>
    cases extension with
    | schema schema =>
      -- What stands behind the first extension has a later place.
      have later {member : Member} (behind : member ∈ placed base (index + 1) rest)
          (atPlace : member.place = .extension found) : index ≠ found :=
        Nat.ne_of_lt (le_of_mem_placed behind atPlace)
      rcases List.mem_cons.mp first_mem with rfl | behind
      · rcases List.mem_cons.mp second_mem with rfl | behindSecond
        · rfl
        · cases atPlace
          exact absurd rfl (later behindSecond atPlaceSecond)
      · rcases List.mem_cons.mp second_mem with rfl | behindSecond
        · cases atPlaceSecond
          exact absurd rfl (later behind atPlace)
        · exact ih behind behindSecond
    | base =>
      rcases List.mem_cons.mp first_mem with rfl | behind
      · cases atPlace
      · rcases List.mem_cons.mp second_mem with rfl | behindSecond
        · cases atPlaceSecond
        · exact ih behind behindSecond

/-- A place has one member. -/
theorem eq_of_place_eq {first second : Member} (first_mem : first ∈ view.members)
    (second_mem : second ∈ view.members) (same : first.place = second.place) : first = second := by
  -- Whatever stands at the top level is the base.
  have isBase {member : Member} (member_mem : member ∈ view.members) (atBase : member.place = .base) :
      member = view.baseMember := by
    rcases mem_members_iff.mp member_mem with rfl | extension
    · rfl
    · obtain ⟨place, schema⟩ := member
      cases atBase
      rw [baseMember, ← schema_of_mem_placed extension rfl]
  cases place : first.place with
  | base => rw [isBase first_mem place, isBase second_mem (same ▸ place)]
  | extension index =>
    have isExtension {member : Member} (member_mem : member ∈ view.members)
        (atPlace : member.place = .extension index) : member ∈ view.extensionMembers := by
      rcases mem_members_iff.mp member_mem with rfl | extension
      · cases atPlace
      · exact extension
    have placeSecond := same ▸ place
    exact eq_of_mem_placed (isExtension first_mem place) (isExtension second_mem placeSecond) place
      placeSecond

/-- No attributes but those of the base stand at the top level. -/
theorem eq_baseMember_of_key? (member_mem : member ∈ view.members) (atTop : member.key? = none) :
    member = view.baseMember := by
  refine eq_of_place_eq member_mem List.mem_cons_self ?_
  cases place : member.place with
  | base => rfl
  | extension index =>
    rw [Member.key?, place] at atTop
    cases atTop

/-- The object that holds the attributes of an extension stands under its URN. -/
theorem mem_extensionMembers_of_key? {urn : String} (member_mem : member ∈ view.members)
    (isKey : member.key? = some urn) : member ∈ view.extensionMembers ∧ member.schema.id = urn := by
  unfold Member.key? at isKey
  split at isKey
  · cases isKey
  next place =>
    refine ⟨(mem_members_iff.mp member_mem).resolve_left fun isBase => ?_, Option.some.inj isKey⟩
    rw [isBase] at place
    cases place

/-- Where URNs are kept apart, every extension has an object of its own. -/
theorem key?_of_pairwise
    (apart : view.members.Pairwise fun first second =>
      Text.fold first.schema.id ≠ Text.fold second.schema.id)
    (member_mem : member ∈ view.extensionMembers) : member.key? = some member.schema.id := by
  cases place : member.place with
  | base =>
    have same : member.schema = view.base := schema_of_mem_placed member_mem place
    -- The base would stand in the view twice, under one URN.
    have different := (List.pairwise_cons.mp apart).1 member member_mem
    rw [same] at different
    exact absurd rfl different
  | extension index => rw [Member.key?, place]

namespace WellFormed

theorem key?_eq (wellFormed : view.WellFormed) (member_mem : member ∈ view.extensionMembers) :
    member.key? = some member.schema.id :=
  key?_of_pairwise wellFormed.apart member_mem

/-- Members with one URN are one member. -/
theorem eq_of_fold_id_eq (wellFormed : view.WellFormed) {first second : Member}
    (first_mem : first ∈ view.members) (second_mem : second ∈ view.members)
    (same : Text.fold first.schema.id = Text.fold second.schema.id) : first = second :=
  List.inj_on_of_nodup_map (List.pairwise_map.mpr wellFormed.apart) first_mem second_mem same

/-- The key of an extension is neither `schemas` nor the name of an attribute of the base. -/
theorem free_of_extensionFor? (wellFormed : view.WellFormed) {key : String}
    {member : Member} (found : view.extensionFor? key = some member) :
    Text.sameName key "schemas" = false ∧ view.base.find? key = none := by
  have member_mem := extensionFor?_eq_some found
  have same := fold_id_of_extensionFor? found
  constructor
  · refine Bool.eq_false_iff.mpr fun isSchemas => ?_
    have notSchemas := wellFormed.notSchemas member (mem_members_of_mem_extensionMembers member_mem)
    exact notSchemas (same.trans (Text.sameName_iff.mp isSchemas))
  · refine Option.eq_none_iff_forall_ne_some.mpr fun definition declared => ?_
    obtain ⟨definition_mem, sameKey⟩ := Attribute.find?_eq_some declared
    exact wellFormed.freeUrns definition definition_mem member member_mem (sameKey.trans same.symm)

/-- The name of an attribute of the base is neither `schemas` nor the key of an extension. -/
theorem free_of_base_find? (wellFormed : view.WellFormed) {key : String} {definition : Attribute}
    (found : view.base.find? key = some definition) :
    Text.sameName key "schemas" = false ∧ view.extensionFor? key = none := by
  obtain ⟨declared, sameKey⟩ := Attribute.find?_eq_some found
  constructor
  · refine Bool.eq_false_iff.mpr fun isSchemas => ?_
    exact wellFormed.freeSchemas definition declared (sameKey.trans (Text.sameName_iff.mp isSchemas))
  · refine Option.eq_none_iff_forall_ne_some.mpr fun extension isExtension => ?_
    rw [(wellFormed.free_of_extensionFor? isExtension).2] at found
    cases found

/-- An extension is what is found under its URN. -/
theorem extensionFor?_eq (wellFormed : view.WellFormed)
    (member_mem : member ∈ view.extensionMembers) {key : String}
    (same : Text.fold key = Text.fold member.schema.id) : view.extensionFor? key = some member :=
  extensionFor?_of_pairwise (List.pairwise_cons.mp wellFormed.apart).2 member_mem same

end WellFormed

end View

end Scim
