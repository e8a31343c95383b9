import Scim.Instant
import Scim.Patch.Error
import Scim.Resource.Access

/-!
# Types of patched values

Before anything is written, the value of an operation is checked against the definition it is
written under. An object for a complex attribute may name declared sub-attributes only, and give any
of them as `null`, which clears it.
-/

namespace Scim.Attribute

/-- Whether a single value of an attribute has the type of the attribute, complex attributes apart.
-/
def accepts (definition : Attribute) (value : Json) : Bool :=
  match definition.type, value with
  | .string, .string _ | .reference, .string _ | .binary, .string _ => true
  | .dateTime, .string text => (Instant.read? text).isSome
  | .boolean, .bool _ => true
  | .integer, .number number => number.isInteger
  | .decimal, .number _ => true
  | _, _ => false

/-- The fault of a value that has the wrong type as a whole. -/
def typeFault (definition : Attribute) (value : Json) : ValueFault :=
  if definition.isComplex then .complexNotObject definition.name
  else .wrongType definition.type definition.name value

mutual

/-- Checks a value of an attribute; with `asMany`, an array stands for the values of a multi-valued
attribute. Faults are reported under `path`, the path of the operation. -/
def check (path : String) (asMany : Bool) (definition : Attribute) : Json → Except PatchError Unit
  | .array items =>
    if asMany && definition.multiValued then checkItems path definition items
    else .error (.invalidValue path (definition.typeFault (.array items)))
  | .object entries =>
    if definition.isComplex then checkEntries path definition entries
    else .error (.invalidValue path (definition.typeFault (.object entries)))
  | value =>
    if definition.accepts value then .ok ()
    else .error (.invalidValue path (definition.typeFault value))

def checkItems (path : String) (definition : Attribute) : List Json → Except PatchError Unit
  | [] => .ok ()
  | item :: rest => do
    check path false definition item
    checkItems path definition rest

def checkEntries (path : String) (definition : Attribute) : Object → Except PatchError Unit
  | [] => .ok ()
  | (key, value) :: rest => do
    match definition.sub? key with
    | none => throw (.invalidValue path (.noSubAttribute definition.name key))
    | some sub => if !value.isNull then check path true sub value
    checkEntries path definition rest

end

end Scim.Attribute
