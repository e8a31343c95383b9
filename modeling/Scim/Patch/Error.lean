import Scim.Json.Printer
import Scim.Patch.Verb
import Scim.Reference
import Scim.Schema.Attribute

/-!
# Faults of patch operations

An operation fails by its path, by its value, by what is stored already, or by who may change it;
clients are told the kind of the fault and a message.
-/

namespace Scim

inductive PathFault where
  | invalidReference (fault : ReferenceFault)
  /-- A removal without a path. -/
  | pathRequired
  | undefined
  | noSubAttribute (name sub : String)
  /-- A value filter on an attribute that is not made of complex elements. -/
  | filterNotApplicable
  | filterOnAdd
  deriving DecidableEq

def PathFault.message : PathFault → String
  | .invalidReference fault => fault.message
  | .pathRequired => "remove requires a path"
  | .undefined => "attribute is not defined for this resource type"
  | .noSubAttribute name sub => "'" ++ name ++ "' has no sub-attribute '" ++ sub ++ "'"
  | .filterNotApplicable => "a value filter requires a multi-valued complex attribute"
  | .filterOnAdd => "add does not accept a value filter"

/-- What is wrong with the value of an operation, or with the stored value it meets. -/
inductive ValueFault where
  | resourceNotObject
  /-- An operation without a path whose value does not name attributes. -/
  | objectRequired (verb : PatchVerb)
  | valueRequired
  | extensionNotObject
  | notObject
  | elementNotObject
  | arrayRequired
  | complexNotObject (name : String)
  | noSubAttribute (name key : String)
  | wrongType (type : AttributeType) (name : String) (value : Json)
  /-- A request that does not declare the URN of its kind. -/
  | undeclaredMessage (urn : String)

def ValueFault.message : ValueFault → String
  | .resourceNotObject => "resource must be a JSON object"
  | .objectRequired verb => verb.keyword ++ " without a path requires a JSON object value"
  | .valueRequired => "add requires a value"
  | .extensionNotObject => "extension attributes must be a JSON object"
  | .notObject => "expected a JSON object"
  | .elementNotObject => "elements of a complex attribute must be JSON objects"
  | .arrayRequired => "a multi-valued attribute must be replaced with an array"
  | .complexNotObject name => "'" ++ name ++ "' expects a JSON object"
  | .noSubAttribute name key => "'" ++ name ++ "' has no sub-attribute '" ++ key ++ "'"
  | .wrongType type name value =>
    "expected a " ++ type.title ++ " value for '" ++ name ++ "', got " ++ value.text
  | .undeclaredMessage urn => "PATCH request must declare '" ++ urn ++ "'"

inductive PatchError where
  | invalidPath (path : String) (fault : PathFault)
  | noTarget (path : String)
  | mutability (name : String) (kept : Mutability)
  | invalidValue (path : String) (fault : ValueFault)
  | tooManyOperations (count limit : Nat)

namespace PatchError

def message : PatchError → String
  | .invalidPath path fault => "Invalid path '" ++ path ++ "': " ++ fault.message
  | .noTarget path => "No target matched path '" ++ path ++ "'"
  | .mutability name kept =>
    "Attribute '" ++ name ++ "' is " ++ kept.keyword ++ " and cannot be modified"
  | .invalidValue path fault => "Invalid value for '" ++ path ++ "': " ++ fault.message
  | .tooManyOperations count limit =>
    "Patch request has " ++ toString count ++ " operations, limit is " ++ toString limit

/-- The kind of the error as it is told to clients. -/
def scimType : PatchError → String
  | .invalidPath _ _ => "invalidPath"
  | .noTarget _ => "noTarget"
  | .mutability _ _ => "mutability"
  | .invalidValue _ _ => "invalidValue"
  | .tooManyOperations _ _ => "tooMany"

end PatchError

end Scim
