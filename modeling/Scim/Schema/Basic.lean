import Scim.Schema.Attribute
import Scim.Schema.Error
import Scim.Text.Blank

/-!
# Schemas

A schema is a list of attributes under a URN. A schema that is put to use has passed
`Schema.validate`: names are unique in their list, a complex attribute declares what it is made of,
and only a complex attribute does, one level deep.
-/

namespace Scim

structure Schema where
  id : String
  name : String := ""
  description : String := ""
  attributes : List Attribute := []
  deriving DecidableEq

namespace Schema

/-- The attribute with a given name, in any ASCII case. -/
def find? (schema : Schema) (name : String) : Option Attribute :=
  Attribute.find? schema.attributes name

/-! ### Validity -/

/-- Checks that an attribute is made of sub-attributes if and only if it is complex. What they are
is left to `checkComplex`. -/
def checkParts (report : Attribute → AttributeFault → SchemaError)
    (checkComplex : Attribute → Except SchemaError Unit) (definition : Attribute) :
    Except SchemaError Unit :=
  if definition.isComplex then
    if definition.subAttributes.isEmpty then .error (report definition .noSubAttributes)
    else checkComplex definition
  else if definition.subAttributes.isEmpty then .ok ()
  else .error (report definition .subAttributesOnSimple)

def checkCanonicalValues (report : Attribute → AttributeFault → SchemaError) (definition : Attribute) :
    Except SchemaError Unit :=
  let hasText := definition.type == .string || definition.type == .reference
  if !definition.canonicalValues.isEmpty && !hasText then
    .error (report definition .canonicalValuesOnNonText)
  else .ok ()

/-- Checks one attribute of a list; `seen` holds the folded names that came before. -/
def checkAttribute (report : Attribute → AttributeFault → SchemaError)
    (checkComplex : Attribute → Except SchemaError Unit) (seen : List (List Char))
    (definition : Attribute) : Except SchemaError Unit :=
  if definition.name.isEmpty then .error (report definition .emptyName)
  else if Text.fold definition.name ∈ seen then .error (report definition .duplicateName)
  else do
    checkParts report checkComplex definition
    checkCanonicalValues report definition

def checkAttributes (report : Attribute → AttributeFault → SchemaError)
    (checkComplex : Attribute → Except SchemaError Unit) (seen : List (List Char)) :
    List Attribute → Except SchemaError Unit
  | [] => .ok ()
  | definition :: rest => do
    checkAttribute report checkComplex seen definition
    checkAttributes report checkComplex (Text.fold definition.name :: seen) rest

/-- Checks the sub-attributes of a complex attribute, none of which may be complex. -/
def checkSubAttributes (schemaId : String) (parent : Attribute) : Except SchemaError Unit :=
  let report := fun (definition : Attribute) =>
    SchemaError.invalidAttribute schemaId (parent.name ++ "." ++ definition.name)
  checkAttributes report (fun definition => .error (report definition .nestedComplex)) []
    parent.subAttributes

/-- Checks that a schema is fit for use, and reports the first fault in the order of declaration. -/
def validate (schema : Schema) : Except SchemaError Unit :=
  if Text.isBlankText schema.id then
    .error (.invalidAttribute schema.name "<schema>" .emptySchemaId)
  else
    checkAttributes (fun definition => .invalidAttribute schema.id definition.name)
      (checkSubAttributes schema.id) [] schema.attributes

end Schema

end Scim
