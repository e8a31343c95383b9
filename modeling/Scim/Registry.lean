import Scim.Schema.Codec
import Scim.Schema.Core
import Scim.View

/-!
# Registry

A registry knows schemas by URN and resource types by id and by endpoint. A registration brings a
resource type together with its schemas, and is checked as a whole before anything is added: a
rejected registration leaves the registry as it was. A schema may be brought again if it is the
same.
-/

namespace Scim

structure SchemaExtension where
  schema : String
  /-- Whether every resource of the type has to carry the extension. -/
  required : Bool
  deriving DecidableEq

structure ResourceType where
  id : String
  name : String
  endpoint : String
  description : String := ""
  schema : String
  schemaExtensions : List SchemaExtension := []
  deriving DecidableEq

/-- The path of an endpoint: a slash in front, and none at the end. -/
def normalizeEndpoint (endpoint : String) : String :=
  let trimmed := ((Text.trim endpoint.toList).reverse.dropWhile (· == '/')).reverse
  match trimmed with
  | '/' :: _ => String.ofList trimmed
  | _ => String.ofList ('/' :: trimmed)

namespace ResourceType

def simple (id endpoint schema : String) : ResourceType := { id, name := id, endpoint, schema }

def path (type : ResourceType) : String := normalizeEndpoint type.endpoint

def extensionUrns (type : ResourceType) : List String := type.schemaExtensions.map (·.schema)

open Json

def extensionFields : List (RecordField SchemaExtension) :=
  [{ name := "schema", required := true, store := fun document extension => do
      return { extension with schema := ← decodeString document } },
   { name := "required", required := true, store := fun document extension => do
      return { extension with required := ← decodeBool document } }]

def fields (origin : Origin) (room : Nat) : List (RecordField ResourceType) :=
  [{ name := "id", required := true, store := fun document type => do
      return { type with id := ← decodeString document } },
   { name := "name", required := true, store := fun document type => do
      return { type with name := ← decodeString document } },
   { name := "endpoint", required := true, store := fun document type => do
      return { type with endpoint := ← decodeString document } },
   { name := "description", store := fun document type => do
      return { type with description := ← decodeString document } },
   { name := "schema", required := true, store := fun document type => do
      return { type with schema := ← decodeString document } },
   { name := "schemaExtensions", store := fun document type => do
      return { type with
        schemaExtensions := ← decodeList room
          (decodeRecord origin (room - 1) extensionFields ⟨"", false⟩) document } }]

def ofJson (value : Json) : Except DecodeError ResourceType :=
  let document := Document.ofJson value
  decodeRecord .value document.nesting (fields .value (document.nesting - 1)) (simple "" "" "") document

def toJson (type : ResourceType) : Json :=
  .object
    ([("description", .string type.description), ("endpoint", .string type.endpoint),
        ("id", .string type.id), ("name", .string type.name), ("schema", .string type.schema)] ++
      (if type.schemaExtensions.isEmpty then []
        else
          [("schemaExtensions", .array (type.schemaExtensions.map fun extension =>
            .object [("required", .bool extension.required), ("schema", .string extension.schema)]))]))

end ResourceType

/-- What is registered, in the order of registration. -/
structure Registry where
  schemas : List Schema := []
  resourceTypes : List ResourceType := []

structure Registration where
  resourceType : ResourceType
  base : Schema
  extensions : List Schema := []

/-- The schemas of a registration, the base first. -/
def Registration.schemas (registration : Registration) : List Schema :=
  registration.base :: registration.extensions

namespace Registry

/-! ### Lookup -/

def schema? (registry : Registry) (urn : String) : Option Schema :=
  registry.schemas.find? (·.id == urn)

def resourceType? (registry : Registry) (id : String) : Option ResourceType :=
  registry.resourceTypes.find? (·.id == id)

/-- The resource type at an endpoint, whatever slashes it is written with. -/
def resourceTypeAt? (registry : Registry) (endpoint : String) : Option ResourceType :=
  registry.resourceTypes.find? (·.path == normalizeEndpoint endpoint)

def schemasByUrn (registry : Registry) : List Schema :=
  registry.schemas.mergeSort fun left right => !decide (right.id < left.id)

/-- The view of a resource type. An extension with the URN of the base is the base. -/
def viewOf? (registry : Registry) (type : ResourceType) : Option View := do
  let base ← registry.schema? type.schema
  return {
    base
    extensions := type.extensionUrns.filterMap fun urn =>
      if urn = type.schema then some .base else (registry.schema? urn).map .schema }

def view? (registry : Registry) (resourceTypeId : String) : Option View :=
  (registry.resourceType? resourceTypeId).bind registry.viewOf?

def viewAt? (registry : Registry) (endpoint : String) : Option View :=
  (registry.resourceTypeAt? endpoint).bind registry.viewOf?

/-! ### Registration -/

/-- Checks a resource type by itself and against the base schema it comes with. -/
def checkType (type : ResourceType) (base : Schema) : Except SchemaError Unit :=
  if Text.isBlankText type.id then .error (.invalidResourceType type.name .noId)
  else if Text.isBlankText type.schema then .error (.invalidResourceType type.id .noSchema)
  else if type.path = "/" then .error (.invalidResourceType type.id .noEndpoint)
  else if base.id ≠ type.schema then
    .error (.invalidResourceType type.id (.schemaMismatch base.id type.schema))
  else .ok ()

/-- Checks that a resource type takes no endpoint and no id of another one. -/
def checkFree (registry : Registry) (type : ResourceType) : Except SchemaError Unit :=
  if registry.resourceTypes.any (·.path == type.path) then .error (.duplicateEndpoint type.path)
  else if registry.resourceTypes.any (·.id == type.id) then
    .error (.invalidResourceType type.id .duplicateId)
  else .ok ()

def checkSupplied (type : ResourceType) : List Schema → Except SchemaError Unit
  | [] => .ok ()
  | supplied :: rest =>
    if supplied.id ∈ type.extensionUrns then checkSupplied type rest
    else .error (.invalidResourceType type.id (.undeclaredExtension supplied.id))

/-- Checks that every extension that is declared is supplied or registered. -/
def checkDeclared (registry : Registry) (typeId : String) (supplied : List Schema) :
    List String → Except SchemaError Unit
  | [] => .ok ()
  | urn :: rest =>
    if supplied.any (·.id == urn) || (registry.schema? urn).isSome then
      checkDeclared registry typeId supplied rest
    else .error (.unknownExtension typeId urn)

/-- Checks that no other schema is registered under the URN of a schema. -/
def checkUrn (registry : Registry) (schema : Schema) : Except SchemaError Unit :=
  match registry.schema? schema.id with
  | some registered => if registered = schema then .ok () else .error (.duplicateSchema schema.id)
  | none => .ok ()

/-- Checks that schemas are valid and no other schema is registered under their URNs. -/
def checkSchemas (registry : Registry) : List Schema → Except SchemaError Unit
  | [] => .ok ()
  | schema :: rest => do
    schema.validate
    checkUrn registry schema
    checkSchemas registry rest

def addSchema (registry : Registry) (schema : Schema) : Registry :=
  if (registry.schema? schema.id).isSome then registry
  else { registry with schemas := registry.schemas ++ [schema] }

/-- All that is checked of a registration, by itself and against what is registered. -/
def check (registry : Registry) (registration : Registration) : Except SchemaError Unit := do
  let type := registration.resourceType
  checkType type registration.base
  checkFree registry type
  checkSupplied type registration.extensions
  checkDeclared registry type.id registration.extensions type.extensionUrns
  checkSchemas registry registration.schemas

def addType (registry : Registry) (type : ResourceType) : Registry :=
  { registry with resourceTypes := registry.resourceTypes ++ [type] }

/-- Registers a resource type with its schemas in a registry that is being built. A call that fails
leaves behind what it has changed until then. -/
def submit (registration : Registration) : EStateM SchemaError Registry Unit := do
  ofExcept (check (← get) registration)
  -- Nothing has been registered up to here, and nothing can fail from here on.
  registration.schemas.forM fun schema => modify (addSchema · schema)
  modify (addType · registration.resourceType)

/-- The registry with one more resource type. -/
def register (registry : Registry) (registration : Registration) : Except SchemaError Registry :=
  match submit registration registry with
  | .ok () extended => .ok extended
  | .error error _ => .error error

/-- The registrations of users at `/Users`, with the extension for employees, and of groups at
`/Groups`. -/
def coreRegistrations : List Registration :=
  [{ resourceType :=
      { ResourceType.simple "User" "/Users" Schema.userUrn with
        description := "User Account"
        schemaExtensions := [⟨Schema.enterpriseUserUrn, false⟩] }
     base := Schema.user
     extensions := [Schema.enterpriseUser] },
   { resourceType :=
      { ResourceType.simple "Group" "/Groups" Schema.groupUrn with description := "Group" }
     base := Schema.group }]

def core : Except SchemaError Registry := coreRegistrations.foldlM register {}

end Registry

end Scim
