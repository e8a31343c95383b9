import Mathlib.Data.List.DropRight
import Scim.Proofs.Registry
import Scim.Proofs.Schema.Codec
import Scim.Validator

/-!
# Schemas that are registered together

The schemas of a directory are registered each as a resource type of its own, which takes its id and
its endpoint from the name of the schema. Whether they can be registered together is decided by what
their names lead to as much as by their definitions, although a schema that is checked by itself may
have any name but the empty one.
-/

namespace Scim

/-- The first element of a list is dropped from the end if all behind it are. -/
theorem rdropWhile_cons {α : Type} (drops : α → Bool) (first : α) (rest : List α) :
    (first :: rest).rdropWhile drops =
      if rest.rdropWhile drops = [] ∧ drops first = true then [] else first :: rest.rdropWhile drops := by
  simp only [List.rdropWhile, List.reverse_cons, List.dropWhile_append, List.reverse_eq_nil_iff,
    List.isEmpty_iff]
  split
  next gone => cases stays : drops first <;> simp [gone, stays]
  next left => simp [left]

namespace Validator

variable {schema : Schema} {schemas front rest : List Schema} {left : Registry}

/-! ### Schemas that are accepted -/

theorem checkText_eq_ok_iff {text : String} :
    checkText text = .ok schema ↔
      (∃ object, Json.read? text = some (.object object) ∧
        ∀ name ∈ requiredFields, Object.get? object name ≠ none) ∧
      Schema.ofText text = .ok schema ∧ checkSchema schema = .ok () := by
  unfold checkText
  cases read : Json.read? text with
  | none => exact iff_of_false nofun fun ⟨⟨_, found, _⟩, _⟩ => nomatch found
  | some value =>
    cases value with
    | object object =>
      cases missing : requiredFields.find? fun name => (Object.get? object name).isNone with
      | some name =>
        have absent : Object.get? object name = none := by simpa using List.find?_some missing
        have required := List.mem_of_find?_eq_some missing
        refine iff_of_false (by simp [Json.object?, missing, bind_eq_ok_iff]) ?_
        rintro ⟨⟨_, ⟨⟩, complete⟩, _⟩
        exact complete name required absent
      | none =>
        have complete : ∀ name ∈ requiredFields, Object.get? object name ≠ none := by
          simpa using List.find?_eq_none.mp missing
        simp only [Json.object?, missing, bind_eq_ok_iff, mapError_eq_ok_iff]
        constructor
        · rintro ⟨_, decoded, ⟨⟩, checked, ⟨⟩⟩
          exact ⟨⟨object, rfl, complete⟩, decoded, checked⟩
        · rintro ⟨_, decoded, checked⟩
          exact ⟨schema, decoded, (), checked, rfl⟩
    | _ => exact iff_of_false nofun fun ⟨⟨_, found, _⟩, _⟩ => nomatch found

/-- The schemas that are accepted are those that pass the checks: each of them has a document. -/
theorem exists_check_iff :
    (∃ content, check content = .ok schema) ↔ schema.validate = .ok () ∧ checkSchema schema = .ok () := by
  constructor
  · rintro ⟨content, accepted⟩
    cases content with
    | text text =>
      obtain ⟨_, read, checked⟩ := checkText_eq_ok_iff.mp accepted
      exact ⟨(Schema.ofText_eq_ok_iff.mp read).2, checked⟩
    | unreadable reason => cases accepted
  · rintro ⟨valid, checked⟩
    -- The document that a schema is written to will do: a valid schema is not nested too deeply for it.
    have room := (Schema.validate_eq_ok_iff.mp valid).nesting_le
    have document : Json.Document.read schema.toJson.text = (.ofJson schema.toJson, true) :=
      Json.Document.read_text (by rw [Schema.numbers_toJson]; exact nofun)
    have value : Json.read? schema.toJson.text = some schema.toJson := by
      rw [Json.read?, document]
      exact Json.Document.value?_ofJson _ _ schema.ordered_toJson room
    have complete : ∃ object, Json.read? schema.toJson.text = some (.object object) ∧
        ∀ name ∈ requiredFields, Object.get? object name ≠ none :=
      ⟨_, value, by simp [requiredFields, Object.get?]⟩
    have decoded := Schema.ofText_text_eq_ok_iff.mpr ⟨rfl, valid⟩
    have accepted : checkText schema.toJson.text = .ok schema :=
      checkText_eq_ok_iff.mpr ⟨complete, decoded, checked⟩
    exact ⟨.text schema.toJson.text, accepted⟩

/-! ### What a name leads to -/

/-- A name without the blanks at its end and without the slashes before them. -/
def stem (name : String) : List Char := (name.toList.rdropWhile Text.isBlank).rdropWhile (· == '/')

/-- The registration of a schema as a resource type of its own. -/
def registration (schema : Schema) : Registration :=
  { resourceType := ResourceType.simple schema.name ("/" ++ schema.name) schema.id
    base := schema }

theorem path_registration (schema : Schema) :
    (registration schema).resourceType.path = String.ofList ('/' :: stem schema.name) := by
  -- The slash in front is not blank, so blanks are cut off at the end only.
  have trimmed : Text.trim ("/" ++ schema.name).toList =
      '/' :: schema.name.toList.rdropWhile Text.isBlank := by
    have solid : Text.isBlank '/' = false := by decide
    have kept := rdropWhile_cons Text.isBlank '/' schema.name.toList
    rw [solid, if_neg (by simp)] at kept
    rw [← kept, String.toList_append]
    rfl
  -- If nothing stands behind it, the slash is cut off with the others, and put in front again.
  have cut : ((Text.trim ("/" ++ schema.name).toList).reverse.dropWhile (· == '/')).reverse =
      if stem schema.name = [] then [] else '/' :: stem schema.name := by
    rw [trimmed]
    exact (rdropWhile_cons (· == '/') '/' _).trans (by simp [stem])
  simp only [registration, ResourceType.path, ResourceType.simple, normalizeEndpoint, cut]
  by_cases nothing : stem schema.name = [] <;> simp [nothing]

theorem path_registration_eq_slash_iff :
    (registration schema).resourceType.path = "/" ↔ stem schema.name = [] := by
  rw [path_registration, show "/" = String.ofList ['/'] from rfl, String.ofList_inj, List.cons.injEq,
    and_iff_right rfl]

theorem path_registration_eq_iff {other : Schema} :
    (registration other).resourceType.path = (registration schema).resourceType.path ↔
      stem other.name = stem schema.name := by
  rw [path_registration, path_registration, String.ofList_inj, List.cons.injEq, and_iff_right rfl]

theorem stem_of_isBlankText {name : String} (blank : Text.isBlankText name = true) : stem name = [] := by
  have gone : name.toList.rdropWhile Text.isBlank = [] :=
    List.rdropWhile_eq_nil_iff.mpr (List.all_eq_true.mp blank)
  rw [stem, gone, List.rdropWhile_nil]

/-! ### Registering one schema after the other -/

/-- What is registered if nothing fails. -/
def registryOf (schemas : List Schema) : Registry :=
  { schemas, resourceTypes := schemas.map fun schema => (registration schema).resourceType }

/-- Schemas whose names lead somewhere, each to a place of its own, and whose URNs are their own. -/
structure Together (schemas : List Schema) : Prop where
  named : ∀ schema ∈ schemas, stem schema.name ≠ []
  apart : schemas.Pairwise fun first second =>
    first.id ≠ second.id ∧ stem first.name ≠ stem second.name

theorem Together.of_append (together : Together (front ++ rest)) : Together front :=
  ⟨fun schema member => together.named schema (List.mem_append_left rest member),
    (List.pairwise_append.mp together.apart).1⟩

theorem together_append_singleton_iff (together : Together front) :
    Together (front ++ [schema]) ↔
      stem schema.name ≠ [] ∧
        ∀ other ∈ front, other.id ≠ schema.id ∧ stem other.name ≠ stem schema.name := by
  constructor
  · rintro ⟨named, apart⟩
    exact ⟨named schema (by simp), fun other member =>
      (List.pairwise_append.mp apart).2.2 other member schema (List.mem_singleton_self schema)⟩
  · rintro ⟨named, apart⟩
    refine ⟨List.forall_mem_append.mpr ⟨together.named, List.forall_mem_singleton.mpr named⟩,
      List.pairwise_append.mpr ⟨together.apart, List.pairwise_singleton _ _, fun other member => ?_⟩⟩
    exact List.forall_mem_singleton.mpr (apart other member)

/-- A schema is accepted next to others if it is apart from them. That it is the same as one of them is
no way out, because its name is taken then. -/
theorem check_registration_eq_ok_iff (valid : schema.validate = .ok ()) :
    (registryOf front).check (registration schema) = .ok () ↔
      stem schema.name ≠ [] ∧
        ∀ other ∈ front, other.id ≠ schema.id ∧ stem other.name ≠ stem schema.name := by
  simp only [Registry.check, check_bind_eq_ok_iff, Registry.checkType_eq_ok_iff,
    Registry.checkFree_eq_ok_iff, Registry.checkSchemas_eq_ok_iff]
  constructor
  · rintro ⟨⟨_, _, somewhere, _⟩, free, _, _, known⟩
    have freeName : ∀ other ∈ front, stem other.name ≠ stem schema.name := fun other member same =>
      (free _ (List.mem_map_of_mem member)).2 (path_registration_eq_iff.mpr same)
    refine ⟨mt path_registration_eq_slash_iff.mpr somewhere, fun other member =>
      ⟨fun same => ?_, freeName other member⟩⟩
    -- What is found under the URN passes only if it is the same, and then it has the same name.
    have taken : ((registryOf front).schema? schema.id).isSome = true :=
      List.find?_isSome.mpr ⟨other, member, by simpa using same⟩
    obtain ⟨found, isFound⟩ := Option.isSome_iff_exists.mp taken
    obtain rfl := (known schema List.mem_cons_self).2 found isFound
    exact freeName found (List.mem_of_find?_eq_some isFound) rfl
  · rintro ⟨named, apart⟩
    have notBlank : Text.isBlankText schema.name = false := by
      rw [← Bool.not_eq_true]
      exact mt stem_of_isBlankText named
    have based : Text.isBlankText schema.id = false := (Schema.validate_eq_ok_iff.mp valid).id
    have somewhere := mt path_registration_eq_slash_iff.mp named
    refine ⟨⟨notBlank, based, somewhere, rfl⟩, List.forall_mem_map.mpr fun other member =>
      ⟨fun same => (apart other member).2 (congrArg stem same),
        mt path_registration_eq_iff.mp (apart other member).2⟩, rfl, rfl,
      List.forall_mem_singleton.mpr ⟨valid, fun registered found => ?_⟩⟩
    obtain ⟨member, same⟩ := Registry.schema?_eq_some found
    exact absurd same (apart registered member).1

theorem register_registration_eq_ok_iff (valid : schema.validate = .ok ()) (together : Together front) :
    (registryOf front).register (registration schema) = .ok left ↔
      Together (front ++ [schema]) ∧ registryOf (front ++ [schema]) = left := by
  rw [Registry.register_eq_ok_iff, check_registration_eq_ok_iff valid,
    together_append_singleton_iff together]
  refine and_congr_right fun ⟨_, apart⟩ => ?_
  have unknown : (registryOf front).schema? schema.id = none :=
    List.find?_eq_none.mpr fun other member => by simpa using (apart other member).1
  have added : (registryOf front).addSchema schema =
      { registryOf front with schemas := front ++ [schema] } := by
    rw [Registry.addSchema, unknown]
    rfl
  have extended : ((registration schema).schemas.foldl Registry.addSchema (registryOf front)).addType
      (registration schema).resourceType = registryOf (front ++ [schema]) := by
    rw [show (registration schema).schemas = [schema] from rfl, List.foldl_cons, List.foldl_nil, added]
    simp [Registry.addType, registryOf]
  rw [extended]

/-- Schemas that follow others that are registered have to go together with them. -/
theorem foldlM_register_eq_ok_iff (valid : ∀ schema ∈ rest, schema.validate = .ok ())
    (together : Together front) :
    rest.foldlM (fun registry schema => registry.register (registration schema)) (registryOf front) =
        .ok left ↔
      Together (front ++ rest) ∧ registryOf (front ++ rest) = left := by
  induction rest generalizing front with
  | nil => simp [pure, Except.pure, together]
  | cons schema rest ih =>
    obtain ⟨validFirst, validRest⟩ := List.forall_mem_cons.mp valid
    -- The first schema of the row becomes the last one in front of the others.
    have inFront : front ++ schema :: rest = front ++ [schema] ++ rest := by simp
    rw [List.foldlM_cons, bind_eq_ok_iff, inFront]
    constructor
    · rintro ⟨_, first, run⟩
      obtain ⟨fits, rfl⟩ := (register_registration_eq_ok_iff validFirst together).mp first
      exact (ih validRest fits).mp run
    · rintro ⟨fits, same⟩
      exact ⟨_, (register_registration_eq_ok_iff validFirst together).mpr ⟨fits.of_append, rfl⟩,
        (ih validRest fits.of_append).mpr ⟨fits, same⟩⟩

/-! ### Directories -/

/-- Two definitions of one URN. -/
def Conflict (first second : Schema) : Prop := first.id = second.id ∧ first ≠ second

instance (first second : Schema) : Decidable (Conflict first second) :=
  inferInstanceAs (Decidable (first.id = second.id ∧ first ≠ second))

theorem together_iff :
    Together schemas ↔
      (schemas.Pairwise fun first second => ¬ Conflict first second) ∧
        (∀ schema ∈ schemas, stem schema.name ≠ []) ∧
        schemas.Pairwise fun first second => stem first.name ≠ stem second.name := by
  constructor
  · rintro ⟨named, apart⟩
    exact ⟨apart.imp fun both conflict => both.1 conflict.1, named, apart.imp And.right⟩
  · rintro ⟨agree, named, places⟩
    refine ⟨named, (agree.and places).imp fun both => ⟨fun same => both.1 ⟨same, ?_⟩, both.2⟩⟩
    rintro rfl
    exact both.2 rfl

/-- A document that is accepted is counted, and nothing else changes how the tool ends. -/
theorem reportDocuments_of_accepted {found : List (String × Content)}
    (accepted : List.Forall₂ (fun document schema => check document.2 = .ok schema) found schemas)
    (report : Report) (valid : List Schema) :
    (reportDocuments report valid found).1.exit = report.exit ∧
      (reportDocuments report valid found).2 = valid ++ schemas := by
  induction accepted generalizing report valid with
  | nil => simp [reportDocuments]
  | cons first _ ih =>
    rw [reportDocuments, first]
    obtain ⟨exit, collected⟩ := ih _ _
    exact ⟨exit, collected.trans (List.append_assoc _ _ _)⟩

theorem exit_reportRegistry_eq_zero_iff (report : Report) (goesWell : report.exit = 0) :
    (reportRegistry report schemas).exit = 0 ↔ ∃ registry, buildRegistry schemas = .ok registry := by
  unfold reportRegistry
  cases buildRegistry schemas with
  | ok registry => simp [Report.print, goesWell]
  | error error => simp [Report.fail]

/-- A directory passes if its documents are accepted and the schemas can be registered together. -/
theorem exit_reportDirectory_eq_zero_iff {path : String} {entries : List (String × Content)}
    (accepted : (documents entries).mapM (check ·.2) = .ok schemas) :
    (reportDirectory path entries).exit = 0 ↔ ∃ registry, buildRegistry schemas = .ok registry := by
  have each := Json.mapM_eq_ok_iff.mp accepted
  obtain ⟨exit, collected⟩ := reportDocuments_of_accepted each
    { out := ["Validating schemas in directory: " ++ path] } []
  rw [List.nil_append] at collected
  have noneInvalid : (documents entries).length - schemas.length = 0 := by
    rw [each.length_eq, Nat.sub_self]
  simp only [reportDirectory, collected, noneInvalid, Nat.lt_irrefl, if_false]
  exact exit_reportRegistry_eq_zero_iff _ exit

/-- **Schemas that are accepted one by one** are registered together, each at the endpoint that its
name leads to, if and only if no two of them define one URN differently and their names lead to
endpoints of their own. On the same condition a directory of their documents passes. -/
theorem buildRegistry_succeeds_iff
    (accepted : ∀ schema ∈ schemas, ∃ content, check content = .ok schema) :
    ((∃ registry, buildRegistry schemas = .ok registry) ↔
      (schemas.Pairwise fun first second => ¬ Conflict first second) ∧
        (∀ schema ∈ schemas, stem schema.name ≠ []) ∧
        schemas.Pairwise fun first second => stem first.name ≠ stem second.name) ∧
    (∀ registry, buildRegistry schemas = .ok registry → registry.schemas = schemas ∧
      registry.resourceTypes.map (·.path) =
        schemas.map fun schema => String.ofList ('/' :: stem schema.name)) ∧
    ∀ path entries, (documents entries).mapM (check ·.2) = .ok schemas →
      ((reportDirectory path entries).exit = 0 ↔ ∃ registry, buildRegistry schemas = .ok registry) := by
  have valid : ∀ schema ∈ schemas, schema.validate = .ok () := fun schema member =>
    (exists_check_iff.mp (accepted schema member)).1
  have builds (registry : Registry) : buildRegistry schemas = .ok registry ↔
      Together schemas ∧ registryOf schemas = registry :=
    foldlM_register_eq_ok_iff valid (⟨nofun, .nil⟩ : Together [])
  refine ⟨?_, fun registry built => ?_, fun path entries read =>
    exit_reportDirectory_eq_zero_iff read⟩
  · rw [← together_iff]
    exact ⟨fun ⟨registry, built⟩ => ((builds registry).mp built).1, fun together =>
      ⟨_, (builds _).mpr ⟨together, rfl⟩⟩⟩
  · obtain ⟨_, rfl⟩ := (builds registry).mp built
    simp only [registryOf, List.map_map, Function.comp_def, path_registration, true_and]

/-- Schemas whose names are written with blanks and slashes at the end lead to endpoints without. -/
theorem buildRegistry_succeeds_iff_cards :
    let card : Schema := { id := "urn:card", name := "Card/ ", attributes := [.simple "number" .string] }
    let badge : Schema := { id := "urn:badge", name := "badges", attributes := [.simple "number" .string] }
    (∀ schema ∈ [card, badge], ∃ content, check content = .ok schema) ∧
      ∃ registry, buildRegistry [card, badge] = .ok registry ∧ registry.schemas = [card, badge] ∧
        registry.resourceTypes.map (·.path) = ["/Card", "/badges"] := by
  intro card badge
  have accepted : ∀ schema ∈ [card, badge], ∃ content, check content = .ok schema := by
    simp only [List.forall_mem_cons, exists_check_iff]
    decide +kernel
  obtain ⟨succeeds, holds, _⟩ := buildRegistry_succeeds_iff accepted
  obtain ⟨registry, built⟩ := succeeds.mpr (by decide +kernel)
  obtain ⟨schemas, paths⟩ := holds registry built
  exact ⟨accepted, registry, built, schemas, paths.trans (by decide +kernel)⟩

/-- A schema that stands in two documents, two schemas of one name, and a schema whose name is a slash:
nothing conflicts, and none of them is registered. -/
theorem buildRegistry_refuses_names :
    let card : Schema := { id := "urn:card", name := "Card", attributes := [.simple "number" .string] }
    let other : Schema := { card with id := "urn:other" }
    let slash : Schema := { card with name := "/" }
    (∀ schema ∈ [card, other, slash], ∃ content, check content = .ok schema) ∧
      ¬ Conflict card card ∧ ¬ Conflict card other ∧
      buildRegistry [card, card] = .error (.duplicateEndpoint "/Card") ∧
      buildRegistry [card, other] = .error (.duplicateEndpoint "/Card") ∧
      buildRegistry [slash] = .error (.invalidResourceType "/" .noEndpoint) := by
  refine ⟨?_, fun conflict => conflict.2 rfl, fun conflict => absurd conflict.1 (by decide), rfl, rfl, rfl⟩
  simp only [List.forall_mem_cons, exists_check_iff]
  decide +kernel

end Validator

end Scim
