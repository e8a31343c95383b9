import Scim.Error
import Scim.Patch.Path

/-!
# Patch requests

A request is a list of operations under the URN of its kind. The path of an operation travels as
text and is read under the default limits.
-/

namespace Scim

open Json

structure PatchOperation where
  verb : PatchVerb
  path : Option PatchPath := none
  value : Option Json := none

namespace PatchOperation

def fields (room : Nat) : List (RecordField PatchOperation) :=
  [{ name := "op", required := true, store := fun document operation => do
      return { operation with verb := ← decodeParsed PatchVerb.parse document } },
   { name := "path", store := fun document operation => do
      return { operation with path := ← decodeOptional (decodeParsed parsePath) document } },
   { name := "value", store := fun document operation => do
      return { operation with value := ← decodeOptional (decodeValue room) document } }]
where
  parsePath (text : String) : Except String PatchPath :=
    (PatchPath.parse {} text).mapError FilterError.message

def decode (origin : Origin) (room : Nat) : Decoder PatchOperation :=
  decodeRecord origin room (fields (room - 1)) { verb := .add }

def ofJson (value : Json) : Except DecodeError PatchOperation :=
  let document := Document.ofJson value
  decode .value document.nesting document

/-- Decodes a list of operations that has been read already. -/
def listOfJson (value : Json) : Except DecodeError (List PatchOperation) :=
  let document := Document.ofJson value
  decodeList document.nesting (decode .value (document.nesting - 1)) document

def toJson (operation : PatchOperation) : Json :=
  .object
    ([("op", .string operation.verb.keyword)] ++
      (match operation.path with
        | some path => [("path", .string path.text)]
        | none => []) ++
      (match operation.value with
        | some value => [("value", value)]
        | none => []))

end PatchOperation

structure PatchRequest where
  schemas : List String
  operations : List PatchOperation

namespace PatchRequest

/-- The URN that a patch request declares. -/
def messageUrn : String := "urn:ietf:params:scim:api:messages:2.0:PatchOp"

def ofOperations (operations : List PatchOperation) : PatchRequest := ⟨[messageUrn], operations⟩

def fields (origin : Origin) (room : Nat) : List (RecordField PatchRequest) :=
  [{ name := "schemas", required := true, store := fun document request => do
      return { request with schemas := ← decodeList room decodeString document } },
   { name := "Operations", otherName := some "operations", required := true,
     store := fun document request => do
      return { request with
        operations := ← decodeList room (PatchOperation.decode origin (room - 1)) document } }]

def decode (origin : Origin) (room : Nat) : Decoder PatchRequest :=
  decodeRecord origin room (fields origin (room - 1)) ⟨[], []⟩

def validate (request : PatchRequest) : Except PatchError Unit :=
  if request.schemas.any (Text.sameName · messageUrn) then .ok ()
  else .error (.invalidValue "schemas" (.undeclaredMessage messageUrn))

def ofText (body : String) : Except ScimError PatchRequest := do
  let request ← (decodeText (decode .text maxNesting) body).mapError .json
  request.validate.mapError .patch
  return request

def toJson (request : PatchRequest) : Json :=
  .object
    [("Operations", .array (request.operations.map PatchOperation.toJson)),
     ("schemas", .array (request.schemas.map .string))]

end PatchRequest

end Scim
