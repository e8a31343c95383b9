import Scim.Schema.Basic

/-!
# Schema documents

A schema document may leave out every field but the URN of the schema and the names of its
attributes; fields it does not know are passed over. A document is written with all characteristics,
except that empty lists of canonical values and of sub-attributes are left out.
-/

namespace Scim

open Json

namespace AttributeType

def choices : List (String × AttributeType) :=
  [.string, .boolean, .decimal, .integer, .dateTime, .binary, .reference, .complex].map
    fun type => (keyword type, type)

end AttributeType

namespace Mutability

def choices : List (String × Mutability) :=
  [.readOnly, .readWrite, .immutable, .writeOnly].map fun mutability => (keyword mutability, mutability)

end Mutability

namespace Returned

def choices : List (String × Returned) :=
  [.always, .never, .default, .request].map fun returned => (keyword returned, returned)

end Returned

namespace Uniqueness

def choices : List (String × Uniqueness) :=
  [.none, .server, .global].map fun uniqueness => (keyword uniqueness, uniqueness)

end Uniqueness

namespace Attribute

/-- The fields of an attribute document; `room` counts the levels that may be opened inside it. -/
def fields (origin : Origin) (room : Nat) (decodeSubAttributes : Decoder (List Attribute)) :
    List (RecordField Attribute) :=
  [{ name := "name", required := true, store := fun document definition => do
      return { definition with name := ← decodeString document } },
   { name := "type", store := fun document definition => do
      return { definition with type := ← decodeChoice origin room AttributeType.choices document } },
   { name := "multiValued", store := fun document definition => do
      return { definition with multiValued := ← decodeBool document } },
   { name := "required", store := fun document definition => do
      return { definition with required := ← decodeBool document } },
   { name := "caseExact", store := fun document definition => do
      return { definition with caseExact := ← decodeBool document } },
   { name := "mutability", store := fun document definition => do
      return { definition with mutability := ← decodeChoice origin room Mutability.choices document } },
   { name := "returned", store := fun document definition => do
      return { definition with returned := ← decodeChoice origin room Returned.choices document } },
   { name := "uniqueness", store := fun document definition => do
      return { definition with uniqueness := ← decodeChoice origin room Uniqueness.choices document } },
   { name := "canonicalValues", store := fun document definition => do
      return { definition with canonicalValues := ← decodeList room decodeString document } },
   { name := "subAttributes", store := fun document definition => do
      return { definition with subAttributes := ← decodeSubAttributes document } }]

/-- Decodes an attribute that is nested at most `room` deep. Sub-attributes stand two levels further
down: in an array in the object. -/
def decode (origin : Origin) : Nat → Decoder Attribute
  | room + 2 =>
    decodeRecord origin (room + 2) (fields origin (room + 1) (decodeList (room + 1) (decode origin room)))
      (simple "" .string)
  | room =>
    decodeRecord origin room (fields origin 0 (decodeList 0 fun _ => .error .notJson)) (simple "" .string)

mutual

def toJson : Attribute → Json
  | ⟨name, type, multiValued, required, caseExact, mutability, returned, uniqueness, canonicalValues,
      subAttributes⟩ =>
    .object
      ((if canonicalValues.isEmpty then []
          else [("canonicalValues", .array (canonicalValues.map .string))]) ++
        [("caseExact", .bool caseExact), ("multiValued", .bool multiValued),
          ("mutability", .string mutability.keyword), ("name", .string name),
          ("required", .bool required), ("returned", .string returned.keyword)] ++
        (if subAttributes.isEmpty then [] else [("subAttributes", .array (toJsonList subAttributes))]) ++
        [("type", .string type.keyword), ("uniqueness", .string uniqueness.keyword)])

def toJsonList : List Attribute → List Json
  | [] => []
  | definition :: rest => toJson definition :: toJsonList rest

end

end Attribute

namespace Schema

/-- The fields of a schema document; `room` counts the levels that may be opened inside it. -/
def fields (origin : Origin) (room : Nat) : List (RecordField Schema) :=
  [{ name := "id", required := true, store := fun document schema => do
      return { schema with id := ← decodeString document } },
   { name := "name", store := fun document schema => do
      return { schema with name := ← decodeString document } },
   { name := "description", store := fun document schema => do
      return { schema with description := ← decodeString document } },
   { name := "attributes", store := fun document schema => do
      return { schema with
        attributes := ← decodeList room (Attribute.decode origin (room - 1)) document } }]

def decode (origin : Origin) (room : Nat) : Decoder Schema :=
  decodeRecord origin room (fields origin (room - 1)) { id := "" }

/-- Decodes a value that has been read already. The schema is not validated. -/
def ofJson (value : Json) : Except DecodeError Schema :=
  let document := Document.ofJson value
  decode .value document.nesting document

/-- Reads the text of a schema document and validates the schema. -/
def ofText (text : String) : Except SchemaError Schema := do
  match decodeText (decode .text maxNesting) text with
  | .error error => throw (.json error)
  | .ok schema =>
    schema.validate
    return schema

def toJson (schema : Schema) : Json :=
  .object
    [("attributes", .array (Attribute.toJsonList schema.attributes)),
     ("description", .string schema.description), ("id", .string schema.id),
     ("name", .string schema.name)]

end Schema

end Scim
