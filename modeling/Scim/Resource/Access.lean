import Scim.Json.Basic
import Scim.Text.Ascii

/-!
# Attributes of a resource

A resource is an object whose keys are attribute names, and clients may write a name in any case.
Reading prefers the key as it is asked for and takes the first key of another case otherwise;
writing goes to the first key that is the same up to case, whatever its spelling. The two agree on
every object that has no two keys equal up to case.
-/

namespace Scim

namespace Object

/-- The value of an attribute, for reading. -/
def attribute? (object : Object) (name : String) : Option Json :=
  match object.get? name with
  | some value => some value
  | none => (object.find? (Text.sameName ·.1 name)).map (·.2)

/-- The first key that is the same name up to case. -/
def spelling? (object : Object) (name : String) : Option String :=
  (object.find? (Text.sameName ·.1 name)).map (·.1)

/-- The value of an attribute, for writing. -/
def slot? (object : Object) (name : String) : Option Json :=
  (object.spelling? name).bind object.get?

/-- Puts a value in the place of the one that `slot?` gives, under the key that is there. -/
def replaceSlot (object : Object) (name : String) (value : Json) : Object :=
  match object.spelling? name with
  | some key => object.insert key value
  | none => object

/-- Puts a value under exactly the given name, in place of the first key that is the same up to
case. -/
def setAttribute (object : Object) (name : String) (value : Json) : Object :=
  match object.spelling? name with
  | some key => if key = name then object.insert name value else (object.erase key).insert name value
  | none => object.insert name value

/-- Drops the first key that is the same name up to case. -/
def removeAttribute (object : Object) (name : String) : Object :=
  match object.spelling? name with
  | some key => object.erase key
  | none => object

/-- Takes out the first key that is the same name up to case: the value that was there, and the rest. -/
def takeAttribute (object : Object) (name : String) : Option Json × Object :=
  match object.spelling? name with
  | some key => (object.get? key, object.erase key)
  | none => (none, object)

/-- No two keys are the same up to case. -/
def Distinct (object : Object) : Prop :=
  object.keys.Pairwise fun key other => Text.fold key ≠ Text.fold other

instance (object : Object) : Decidable object.Distinct :=
  inferInstanceAs (Decidable (object.keys.Pairwise fun key other => Text.fold key ≠ Text.fold other))

end Object

namespace Json

mutual

/-- Whether a value holds anything: `null` and the empty text do not, and an array or object does if
one of its parts does. -/
def isPresent : Json → Bool
  | .null => false
  | .bool _ => true
  | .number _ => true
  | .string text => !text.isEmpty
  | .array items => anyItemPresent items
  | .object entries => anyEntryPresent entries

def anyItemPresent : List Json → Bool
  | [] => false
  | item :: rest => isPresent item || anyItemPresent rest

def anyEntryPresent : Object → Bool
  | [] => false
  | (_, value) :: rest => isPresent value || anyEntryPresent rest

end

end Json

namespace Object

def has (object : Object) (name : String) : Bool := (object.attribute? name).any Json.isPresent

def holdsAny (object : Object) : Bool := Json.anyEntryPresent object

end Object

end Scim
