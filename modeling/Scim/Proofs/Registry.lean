import Scim.Proofs.Schema.Names
import Scim.Registry

/-!
# Registries that are built by registrations

A registration is checked as a whole before anything of it is registered. What the checks ensure is
kept by every call, whether it succeeds or fails, and so holds of every registry that is built from
nothing: every resource type is served under its id and its endpoint, with all the schemas that it
declares.
-/

namespace Scim.Registry

variable {registry before left : Registry} {call : Registration} {type : ResourceType}
  {schema : Schema} {urn : String}

/-! ### Schemas that are registered -/

theorem schema?_eq_some (found : registry.schema? urn = some schema) :
    schema ∈ registry.schemas ∧ schema.id = urn :=
  ⟨List.mem_of_find?_eq_some found, by simpa using List.find?_some found⟩

/-- A schema is added if there is none under its URN. -/
theorem schema?_addSchema (registry : Registry) (schema : Schema) (urn : String) :
    (registry.addSchema schema).schema? urn =
      (registry.schema? urn).or (if schema.id = urn then some schema else none) := by
  unfold addSchema
  split
  next known =>
    by_cases same : schema.id = urn
    · obtain ⟨registered, found⟩ := Option.isSome_iff_exists.mp (same ▸ known)
      simp [found]
    · simp [same]
  next unknown =>
    simp only [schema?, List.find?_append, List.find?_cons, List.find?_nil, beq_eq_decide]
    by_cases same : schema.id = urn <;> simp [same]

/-- Of several schemas under one URN, the first one to be added is registered. -/
theorem schema?_addSchemas (registry : Registry) (schemas : List Schema) (urn : String) :
    (schemas.foldl addSchema registry).schema? urn =
      (registry.schema? urn).or (schemas.find? (·.id == urn)) := by
  induction schemas generalizing registry with
  | nil => simp
  | cons schema rest ih =>
    rw [List.foldl_cons, ih, schema?_addSchema, Option.or_assoc, List.find?_cons, beq_eq_decide]
    by_cases same : schema.id = urn <;> simp [same]

theorem resourceTypes_addSchemas (registry : Registry) (schemas : List Schema) :
    (schemas.foldl addSchema registry).resourceTypes = registry.resourceTypes := by
  induction schemas generalizing registry with
  | nil => rfl
  | cons schema rest ih =>
    rw [List.foldl_cons, ih, addSchema]
    split <;> rfl

/-! ### What is checked -/

theorem checkType_eq_ok_iff {base : Schema} :
    checkType type base = .ok () ↔
      Text.isBlankText type.id = false ∧ Text.isBlankText type.schema = false ∧ type.path ≠ "/" ∧
        base.id = type.schema := by
  unfold checkType
  split
  next noId => simp [noId]
  next named =>
    split
    next noSchema => simp [noSchema]
    next based =>
      split
      next nowhere => simp [nowhere]
      next somewhere => simp [named, based, somewhere]

theorem checkFree_eq_ok_iff :
    checkFree registry type = .ok () ↔
      ∀ other ∈ registry.resourceTypes, other.id ≠ type.id ∧ other.path ≠ type.path := by
  unfold checkFree
  split
  next taken =>
    obtain ⟨other, member, same⟩ := List.any_eq_true.mp taken
    exact ⟨nofun, fun free => absurd (by simpa using same) (free other member).2⟩
  next freePath =>
    split
    next taken =>
      obtain ⟨other, member, same⟩ := List.any_eq_true.mp taken
      exact ⟨nofun, fun free => absurd (by simpa using same) (free other member).1⟩
    next freeId =>
      simp only [List.any_eq_true, not_exists, not_and, beq_iff_eq] at freePath freeId
      exact ⟨fun _ other member => ⟨freeId other member, freePath other member⟩, fun _ => rfl⟩

theorem checkDeclared_eq_ok {typeId : String} {supplied : List Schema} {urns : List String}
    (checked : checkDeclared registry typeId supplied urns = .ok ()) :
    ∀ urn ∈ urns, (supplied.find? (·.id == urn)).isSome = true ∨ (registry.schema? urn).isSome = true := by
  induction urns with
  | nil => simp
  | cons urn rest ih =>
    rw [checkDeclared] at checked
    split at checked
    next known =>
      refine List.forall_mem_cons.mpr ⟨?_, ih checked⟩
      rw [Bool.or_eq_true] at known
      exact known.imp_left fun found => by simpa using found
    · cases checked

theorem checkUrn_eq_ok_iff :
    checkUrn registry schema = .ok () ↔
      ∀ registered, registry.schema? schema.id = some registered → registered = schema := by
  unfold checkUrn
  cases registry.schema? schema.id with
  | none => exact ⟨fun _ => nofun, fun _ => rfl⟩
  | some registered => by_cases same : registered = schema <;> simp [same]

theorem checkSchemas_eq_ok_iff {schemas : List Schema} :
    checkSchemas registry schemas = .ok () ↔
      ∀ schema ∈ schemas, schema.validate = .ok () ∧
        ∀ registered, registry.schema? schema.id = some registered → registered = schema := by
  induction schemas with
  | nil => simp [checkSchemas]
  | cons schema rest ih =>
    rw [checkSchemas, check_bind_eq_ok_iff, check_bind_eq_ok_iff, checkUrn_eq_ok_iff, ih,
      List.forall_mem_cons, and_assoc]

/-- What has been checked of a registration that is accepted. -/
structure Accepts (registry : Registry) (call : Registration) : Prop where
  somewhere : call.resourceType.path ≠ "/"
  base : call.base.id = call.resourceType.schema
  free : ∀ other ∈ registry.resourceTypes,
    other.id ≠ call.resourceType.id ∧ other.path ≠ call.resourceType.path
  declared : ∀ urn ∈ call.resourceType.extensionUrns,
    (call.extensions.find? (·.id == urn)).isSome = true ∨ (registry.schema? urn).isSome = true
  schemas : ∀ schema ∈ call.schemas, schema.validate = .ok () ∧
    ∀ registered, registry.schema? schema.id = some registered → registered = schema

theorem accepts_of_check (checked : registry.check call = .ok ()) : registry.Accepts call := by
  obtain ⟨ofType, checked⟩ := check_bind_eq_ok_iff.mp checked
  obtain ⟨free, checked⟩ := check_bind_eq_ok_iff.mp checked
  obtain ⟨_, checked⟩ := check_bind_eq_ok_iff.mp checked
  obtain ⟨declared, schemas⟩ := check_bind_eq_ok_iff.mp checked
  obtain ⟨_, _, somewhere, base⟩ := checkType_eq_ok_iff.mp ofType
  exact ⟨somewhere, base, checkFree_eq_ok_iff.mp free, checkDeclared_eq_ok declared,
    checkSchemas_eq_ok_iff.mp schemas⟩

/-! ### What a call does -/

theorem forM_addSchema (schemas : List Schema) (before : Registry) :
    (schemas.forM fun schema => (modify (addSchema · schema) : EStateM SchemaError Registry Unit))
      before = .ok () (schemas.foldl addSchema before) := by
  induction schemas generalizing before with
  | nil => rfl
  | cons schema rest ih => exact ih (before.addSchema schema)

/-- A call that succeeds has passed all checks. It adds its schemas and its resource type. -/
theorem submit_eq_ok_iff :
    submit call before = .ok () left ↔
      before.check call = .ok () ∧
        (call.schemas.foldl addSchema before).addType call.resourceType = left := by
  simp only [submit, step_bind_eq_ok_iff, step_get_eq_ok_iff, step_check_eq_ok_iff,
    step_modify_eq_ok_iff, forM_addSchema]
  constructor
  · rintro ⟨_, _, ⟨rfl, rfl⟩, _, _, ⟨checked, rfl⟩, _, _, added, rfl⟩
    cases added
    exact ⟨checked, rfl⟩
  · rintro ⟨checked, rfl⟩
    exact ⟨_, _, ⟨rfl, rfl⟩, _, _, ⟨checked, rfl⟩, _, _, rfl, rfl⟩

/-- A call fails on its checks only, before anything has been changed. -/
theorem submit_eq_error_iff {error : SchemaError} :
    submit call before = .error error left ↔ before.check call = .error error ∧ before = left := by
  simp only [submit, step_bind_eq_error_iff, step_get_eq_ok_iff, step_get_ne_error, false_or,
    step_check_eq_ok_iff, step_check_eq_error_iff, step_modify_ne_error, forM_addSchema]
  constructor
  · rintro ⟨_, _, ⟨rfl, rfl⟩, failed | ⟨_, _, _, impossible | ⟨_, _, _, impossible⟩⟩⟩
    · exact failed
    · cases impossible
    · cases impossible
  · rintro ⟨failed, rfl⟩
    exact ⟨_, _, ⟨rfl, rfl⟩, .inl ⟨failed, rfl⟩⟩

theorem register_eq_ok_iff :
    registry.register call = .ok left ↔
      registry.check call = .ok () ∧
        (call.schemas.foldl addSchema registry).addType call.resourceType = left := by
  rw [← submit_eq_ok_iff, register]
  cases submit call registry <;> simp

/-! ### What every call keeps -/

/-- Schemas are valid and have URNs of their own, resource types have ids and endpoints of their own,
and the schemas that a resource type declares are there. -/
structure WellFormed (registry : Registry) : Prop where
  valid : ∀ schema ∈ registry.schemas, schema.validate = .ok ()
  apart : registry.schemas.Pairwise fun first second => first.id ≠ second.id
  types : registry.resourceTypes.Pairwise fun first second =>
    first.id ≠ second.id ∧ first.path ≠ second.path
  paths : ∀ type ∈ registry.resourceTypes, type.path ≠ "/"
  known : ∀ type ∈ registry.resourceTypes, ∀ urn ∈ type.schema :: type.extensionUrns,
    (registry.schema? urn).isSome = true

theorem wellFormed_empty : WellFormed {} :=
  ⟨nofun, .nil, .nil, nofun, nofun⟩

/-- A schema that is registered stays what is found under its URN. -/
theorem schema?_addSchemas_of_some (found : registry.schema? urn = some schema)
    (schemas : List Schema) : (schemas.foldl addSchema registry).schema? urn = some schema := by
  rw [schema?_addSchemas, found, Option.some_or]

theorem WellFormed.addSchema (wellFormed : registry.WellFormed) (valid : schema.validate = .ok ()) :
    (registry.addSchema schema).WellFormed := by
  have known : ∀ type ∈ (registry.addSchema schema).resourceTypes,
      ∀ urn ∈ type.schema :: type.extensionUrns,
        ((registry.addSchema schema).schema? urn).isSome = true := by
    intro type member urn declared
    have sameTypes : (registry.addSchema schema).resourceTypes = registry.resourceTypes :=
      resourceTypes_addSchemas registry [schema]
    obtain ⟨registered, found⟩ :=
      Option.isSome_iff_exists.mp (wellFormed.known type (sameTypes ▸ member) urn declared)
    rw [schema?_addSchema, found]
    rfl
  unfold Registry.addSchema at known ⊢
  split at known
  next isKnown =>
    rw [if_pos isKnown]
    exact wellFormed
  next isNew =>
    rw [if_neg isNew]
    refine ⟨fun other member => ?_, ?_, wellFormed.types, wellFormed.paths, known⟩
    · rcases List.mem_append.mp member with old | new
      · exact wellFormed.valid other old
      · exact List.mem_singleton.mp new ▸ valid
    · refine List.pairwise_append.mpr ⟨wellFormed.apart, List.pairwise_singleton _ _, ?_⟩
      intro old member new isSchema same
      rw [List.mem_singleton.mp isSchema] at same
      -- A schema with this URN would have been found.
      refine isNew (List.find?_isSome.mpr ⟨old, member, by simpa using same⟩)

theorem WellFormed.addSchemas (wellFormed : registry.WellFormed) {schemas : List Schema}
    (valid : ∀ schema ∈ schemas, schema.validate = .ok ()) :
    (schemas.foldl Registry.addSchema registry).WellFormed := by
  induction schemas generalizing registry with
  | nil => exact wellFormed
  | cons schema rest ih =>
    obtain ⟨validFirst, validRest⟩ := List.forall_mem_cons.mp valid
    exact ih (wellFormed.addSchema validFirst) validRest

/-- A resource type can be added if it is apart from the others and its schemas are there. -/
theorem WellFormed.addType (wellFormed : registry.WellFormed) (somewhere : type.path ≠ "/")
    (free : ∀ other ∈ registry.resourceTypes, other.id ≠ type.id ∧ other.path ≠ type.path)
    (known : ∀ urn ∈ type.schema :: type.extensionUrns, (registry.schema? urn).isSome = true) :
    (registry.addType type).WellFormed := by
  refine ⟨wellFormed.valid, wellFormed.apart, ?_, fun other member => ?_, fun other member => ?_⟩
  · refine List.pairwise_append.mpr ⟨wellFormed.types, List.pairwise_singleton _ _, ?_⟩
    intro other member added isType
    exact List.mem_singleton.mp isType ▸ free other member
  · rcases List.mem_append.mp member with old | new
    · exact wellFormed.paths other old
    · exact List.mem_singleton.mp new ▸ somewhere
  · rcases List.mem_append.mp member with old | new
    · exact wellFormed.known other old
    · exact List.mem_singleton.mp new ▸ known

/-- Every schema that an accepted resource type declares is found once its schemas are added. -/
theorem Accepts.known (accepts : registry.Accepts call) :
    ∀ urn ∈ call.resourceType.schema :: call.resourceType.extensionUrns,
      ((call.schemas.foldl Registry.addSchema registry).schema? urn).isSome = true := by
  intro urn declared
  rw [schema?_addSchemas, Option.isSome_or, Bool.or_eq_true]
  rcases List.mem_cons.mp declared with rfl | extension
  · -- The base is the first of the schemas that are added.
    simp [Registration.schemas, accepts.base]
  · rcases accepts.declared urn extension with supplied | registered
    · obtain ⟨found, member, same⟩ := List.find?_isSome.mp supplied
      exact .inr (List.find?_isSome.mpr ⟨found, List.mem_cons_of_mem _ member, same⟩)
    · exact .inl registered

/-- A call leaves a well-formed registry well-formed if it succeeds. -/
theorem WellFormed.submit (wellFormed : before.WellFormed)
    (done : Registry.submit call before = .ok () left) : left.WellFormed := by
  obtain ⟨checked, rfl⟩ := submit_eq_ok_iff.mp done
  have accepts := accepts_of_check checked
  have extended := wellFormed.addSchemas fun schema member => (accepts.schemas schema member).1
  refine extended.addType accepts.somewhere ?_ accepts.known
  rw [resourceTypes_addSchemas]
  exact accepts.free

/-! ### Rows of calls -/

/-- What a call leaves of a registry, whether it succeeds or fails. -/
def after (registry : Registry) (call : Registration) : Registry :=
  match submit call registry with
  | .ok () left | .error _ left => left

/-- The registry that is built by a row of calls, some of which may fail. -/
def ofCalls (calls : List Registration) : Registry := calls.foldl after {}

theorem WellFormed.after (wellFormed : registry.WellFormed) (call : Registration) :
    (registry.after call).WellFormed := by
  unfold Registry.after
  split
  next left done => exact wellFormed.submit done
  next error left failed =>
    obtain ⟨_, rfl⟩ := submit_eq_error_iff.mp failed
    exact wellFormed

theorem schema?_after (found : registry.schema? urn = some schema) (call : Registration) :
    (registry.after call).schema? urn = some schema := by
  unfold after
  split
  next left done =>
    obtain ⟨_, rfl⟩ := submit_eq_ok_iff.mp done
    exact schema?_addSchemas_of_some found call.schemas
  next error left failed =>
    obtain ⟨_, rfl⟩ := submit_eq_error_iff.mp failed
    exact found

theorem wellFormed_ofCalls (calls : List Registration) : (ofCalls calls).WellFormed := by
  suffices ∀ registry : Registry, registry.WellFormed → (calls.foldl after registry).WellFormed from
    this {} wellFormed_empty
  induction calls with
  | nil => exact fun _ wellFormed => wellFormed
  | cons call rest ih => exact fun registry wellFormed => ih _ (wellFormed.after call)

/-- Whatever the calls that follow, a schema that is registered stays what is found under its URN. -/
theorem schema?_calls (found : registry.schema? urn = some schema) (calls : List Registration) :
    (calls.foldl after registry).schema? urn = some schema := by
  induction calls generalizing registry with
  | nil => exact found
  | cons call rest ih => exact ih (schema?_after found call)

/-! ### The schemas of one call -/

/-- A schema that is registered already can only be brought again as it is. -/
theorem eq_of_submit (done : submit call before = .ok () left) {registered : Schema}
    (brought : schema ∈ call.schemas) (found : before.schema? schema.id = some registered) :
    registered = schema := by
  obtain ⟨checked, _⟩ := submit_eq_ok_iff.mp done
  exact ((accepts_of_check checked).schemas schema brought).2 registered found

/-- What is found under a URN that a call brings schemas for is the first of them, also where the URN
was registered before. -/
theorem schema?_submit (done : submit call before = .ok () left) (brought : schema ∈ call.schemas) :
    ∃ first ∈ call.schemas, call.schemas.find? (·.id == schema.id) = some first ∧
      left.schema? schema.id = some first := by
  have isSupplied : (call.schemas.find? (·.id == schema.id)).isSome = true :=
    List.find?_isSome.mpr ⟨schema, brought, beq_self_eq_true schema.id⟩
  obtain ⟨first, isFirst⟩ := Option.isSome_iff_exists.mp isSupplied
  have supplied : first ∈ call.schemas := List.mem_of_find?_eq_some isFirst
  have same : first.id = schema.id := by simpa using List.find?_some isFirst
  have extended : left.schema? schema.id =
      (before.schema? schema.id).or (call.schemas.find? (·.id == schema.id)) := by
    obtain ⟨_, rfl⟩ := submit_eq_ok_iff.mp done
    exact schema?_addSchemas before call.schemas schema.id
  refine ⟨first, supplied, isFirst, ?_⟩
  rw [extended, isFirst]
  cases found : before.schema? schema.id with
  | none => rfl
  | some registered =>
    have equal : registered = first := eq_of_submit done supplied (same.symm ▸ found)
    rw [equal]
    rfl

/-- **A call that succeeds** brings no schema under a URN that another schema is registered under, and
the first schema that it brings for a URN is the one that is served from then on, whatever calls
follow. Schemas of the call itself are not compared with each other: each of them is served if and
only if no two of them are different under one URN. -/
theorem submit_serves (done : submit call before = .ok () left) (later : List Registration) :
    (∀ schema ∈ call.schemas, ∀ registered,
      before.schema? schema.id = some registered → registered = schema) ∧
    (∀ schema ∈ call.schemas, (later.foldl after left).schema? schema.id =
      call.schemas.find? (·.id == schema.id)) ∧
    ((∀ schema ∈ call.schemas, (later.foldl after left).schema? schema.id = some schema) ↔
      ∀ first ∈ call.schemas, ∀ second ∈ call.schemas, first.id = second.id → first = second) := by
  have served (schema : Schema) (brought : schema ∈ call.schemas) :
      ∃ first ∈ call.schemas, call.schemas.find? (·.id == schema.id) = some first ∧
        (later.foldl after left).schema? schema.id = some first := by
    obtain ⟨first, supplied, isFirst, found⟩ := schema?_submit done brought
    exact ⟨first, supplied, isFirst, schema?_calls found later⟩
  refine ⟨fun schema brought registered => eq_of_submit done brought, fun schema brought => ?_,
    fun each first broughtFirst second broughtSecond same => ?_, fun agree schema brought => ?_⟩
  · obtain ⟨first, _, isFirst, found⟩ := served schema brought
    rw [found, isFirst]
  · have found := each first broughtFirst
    rw [same, each second broughtSecond] at found
    exact (Option.some.inj found).symm
  · obtain ⟨first, supplied, isFirst, found⟩ := served schema brought
    have same : first.id = schema.id := by simpa using List.find?_some isFirst
    rw [found, agree first supplied schema brought same]

/-- An extension that is registered is brought twice more, and another one with it; what comes later
does not take its place. -/
theorem submit_serves_shared :
    let badge : Schema := { id := "urn:b", attributes := [.simple "badge" .string] }
    let pin : Schema := { id := "urn:p", attributes := [.simple "pin" .string] }
    let call : Registration :=
      { resourceType := { ResourceType.simple "User" "/Users" "urn:a" with
          schemaExtensions := [⟨"urn:b", false⟩, ⟨"urn:p", false⟩] }
        base := { id := "urn:a", attributes := [.simple "name" .string] }
        extensions := [badge, pin, badge] }
    let other : Registration :=
      { resourceType := ResourceType.simple "Pin" "/Pins" "urn:p", base := { id := "urn:p" } }
    let before : Registry := { schemas := [badge] }
    let left : Registry :=
      { schemas := [badge, call.base, pin], resourceTypes := [call.resourceType] }
    submit call before = .ok () left ∧
      ∀ schema ∈ call.schemas, ([other].foldl after left).schema? schema.id = some schema := by
  intro badge pin call other before left
  have done : submit call before = .ok () left := submit_eq_ok_iff.mpr ⟨by decide, rfl⟩
  exact ⟨done, (submit_serves done [other]).2.2.mpr (by decide)⟩

/-- Two schemas under one URN are accepted from one call, and the second of them is lost. -/
theorem submit_loses_second :
    let first : Schema := { id := "urn:b", name := "first" }
    let second : Schema := { id := "urn:b", name := "second" }
    let call : Registration :=
      { resourceType := { ResourceType.simple "User" "/Users" "urn:a" with
          schemaExtensions := [⟨"urn:b", false⟩] }
        base := { id := "urn:a" }
        extensions := [first, second] }
    let left : Registry := { schemas := [call.base, first], resourceTypes := [call.resourceType] }
    submit call {} = .ok () left ∧ second ∈ call.schemas ∧
      left.schema? second.id = some first ∧ first ≠ second := by
  intro first second call left
  exact ⟨submit_eq_ok_iff.mpr ⟨by decide, rfl⟩, by decide, by decide, by decide⟩

/-! ### Lookup -/

namespace WellFormed

theorem schema?_id (wellFormed : registry.WellFormed) (registered : schema ∈ registry.schemas) :
    registry.schema? schema.id = some schema :=
  (find?_key_iff wellFormed.apart).mpr ⟨registered, rfl⟩

theorem resourceType?_id (wellFormed : registry.WellFormed) (registered : type ∈ registry.resourceTypes) :
    registry.resourceType? type.id = some type :=
  (find?_key_iff (wellFormed.types.imp And.left)).mpr ⟨registered, rfl⟩

theorem resourceTypeAt?_endpoint (wellFormed : registry.WellFormed)
    (registered : type ∈ registry.resourceTypes) :
    registry.resourceTypeAt? type.endpoint = some type :=
  (find?_key_iff (wellFormed.types.imp And.right)).mpr ⟨registered, rfl⟩

end WellFormed

/-! ### Views -/

/-- What is found for each declared URN has that URN, so the places of a view follow the
declaration. -/
theorem map_id_placed {base : Schema} {find : String → Option Extension} {urns : List String}
    (finds : ∀ urn ∈ urns, find urn = some .base ∧ base.id = urn ∨
      ∃ schema, find urn = some (.schema schema) ∧ schema.id = urn) (index : Nat) :
    (View.placed base index (urns.filterMap find)).map (·.schema.id) = urns := by
  induction urns generalizing index with
  | nil => rfl
  | cons urn rest ih =>
    obtain ⟨first, others⟩ := List.forall_mem_cons.mp finds
    have placedRest := ih others (index + 1)
    rcases first with ⟨isBase, rfl⟩ | ⟨schema, isSchema, rfl⟩
    · rw [List.filterMap_cons_some isBase, View.placed, List.map_cons, placedRest]
    · rw [List.filterMap_cons_some isSchema, View.placed, List.map_cons, placedRest]

/-- The view of a resource type has the schema that the type declares as its base, and all of the
extensions that it declares. -/
theorem WellFormed.viewOf?_eq_some (wellFormed : registry.WellFormed)
    (registered : type ∈ registry.resourceTypes) :
    ∃ view, registry.viewOf? type = some view ∧ view.base.id = type.schema ∧
      view.extensionMembers.map (·.schema.id) = type.extensionUrns := by
  obtain ⟨knownBase, knownExtensions⟩ := List.forall_mem_cons.mp (wellFormed.known type registered)
  obtain ⟨base, found⟩ := Option.isSome_iff_exists.mp knownBase
  have sameBase := (schema?_eq_some found).2
  have isView : registry.viewOf? type = some ⟨base, type.extensionUrns.filterMap fun urn =>
      if urn = type.schema then some .base else (registry.schema? urn).map .schema⟩ := by
    rw [viewOf?, found]
    rfl
  refine ⟨_, isView, sameBase, map_id_placed (fun urn declared => ?_) 0⟩
  by_cases isBase : urn = type.schema
  · exact .inl ⟨if_pos isBase, sameBase.trans isBase.symm⟩
  · obtain ⟨schema, foundSchema⟩ := Option.isSome_iff_exists.mp (knownExtensions urn declared)
    refine .inr ⟨schema, ?_, (schema?_eq_some foundSchema).2⟩
    rw [if_neg isBase, foundSchema, Option.map_some]

/-- **Registries that are built by calls** keep their schemas whatever follows, are left as they were
by a call that fails, and hold valid schemas under their own URNs only. Every resource type has an id
and an endpoint of its own and is served under both, by the view of all schemas that it declares. -/
theorem ofCalls_serves (calls : List Registration) :
    (∀ call error left, submit call (ofCalls calls) = .error error left → left = ofCalls calls) ∧
    (∀ call left, submit call (ofCalls calls) = .ok () left →
      left.resourceTypes = (ofCalls calls).resourceTypes ++ [call.resourceType]) ∧
    (∀ urn schema, (ofCalls calls).schema? urn = some schema →
      ∀ later, (ofCalls (calls ++ later)).schema? urn = some schema) ∧
    (∀ schema ∈ (ofCalls calls).schemas,
      schema.validate = .ok () ∧ (ofCalls calls).schema? schema.id = some schema) ∧
    (ofCalls calls).resourceTypes.Pairwise
      (fun first second => first.id ≠ second.id ∧ first.path ≠ second.path) ∧
    ∀ type ∈ (ofCalls calls).resourceTypes, type.path ≠ "/" ∧
      (ofCalls calls).resourceTypeAt? type.endpoint = some type ∧
      ∃ view, (ofCalls calls).view? type.id = some view ∧
        (ofCalls calls).viewAt? type.endpoint = some view ∧ view.base.id = type.schema ∧
        view.extensionMembers.map (·.schema.id) = type.extensionUrns := by
  have wellFormed := wellFormed_ofCalls calls
  refine ⟨fun call error left failed => ?_, fun call left done => ?_, fun urn schema found later => ?_,
    fun schema registered => ⟨wellFormed.valid schema registered, wellFormed.schema?_id registered⟩,
    wellFormed.types, fun type registered => ?_⟩
  · exact (submit_eq_error_iff.mp failed).2.symm
  · obtain ⟨_, rfl⟩ := submit_eq_ok_iff.mp done
    rw [addType, resourceTypes_addSchemas]
  · rw [ofCalls, List.foldl_append]
    exact schema?_calls found later
  · have atEndpoint := wellFormed.resourceTypeAt?_endpoint registered
    obtain ⟨view, isView, base, extensions⟩ := wellFormed.viewOf?_eq_some registered
    refine ⟨wellFormed.paths type registered, atEndpoint, view, ?_, ?_, base, extensions⟩
    · rw [view?, wellFormed.resourceType?_id registered, Option.bind_some, isView]
    · rw [viewAt?, atEndpoint, Option.bind_some, isView]

/-- The second call takes an endpoint that is taken and fails; the third one declares an extension that
the first one has brought. -/
theorem ofCalls_serves_shared :
    let badge : Schema := { id := "urn:b", attributes := [.simple "badge" .string] }
    let user : Registration :=
      { resourceType := { ResourceType.simple "User" "/Users" "urn:a" with
          schemaExtensions := [⟨"urn:b", false⟩] }
        base := { id := "urn:a", attributes := [.simple "name" .string] }
        extensions := [badge] }
    let taken : Registration :=
      { resourceType := .simple "Person" " Users/ " "urn:p", base := { id := "urn:p" } }
    let group : Registration :=
      { resourceType := { ResourceType.simple "Group" "Groups//" "urn:g" with
          schemaExtensions := [⟨"urn:b", true⟩] }
        base := { id := "urn:g", attributes := [.simple "title" .string] } }
    let registry := ofCalls [user, taken, group]
    registry.resourceTypes = [user.resourceType, group.resourceType] ∧
      registry.schema? "urn:b" = some badge ∧
      ∃ view, registry.view? "Group" = some view ∧ registry.viewAt? "Groups//" = some view ∧
        view.base.id = "urn:g" ∧ view.extensionMembers.map (·.schema.id) = ["urn:b"] := by
  intro badge user taken group registry
  have types : registry.resourceTypes = [user.resourceType, group.resourceType] := by decide
  have stored := (ofCalls_serves [user]).2.2.1 "urn:b" badge (by decide) [taken, group]
  refine ⟨types, stored, ?_⟩
  have registered : group.resourceType ∈ registry.resourceTypes := by
    rw [types]
    exact List.mem_cons_of_mem _ List.mem_cons_self
  exact ((ofCalls_serves [user, taken, group]).2.2.2.2.2 group.resourceType registered).2.2

end Scim.Registry
