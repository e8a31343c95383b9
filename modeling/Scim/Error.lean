import Scim.Filter.Error
import Scim.Limits
import Scim.Patch.Error
import Scim.Schema.Basic

/-!
# Errors of the engine

Every part reports its own kind of error; `ScimError` brings them together for those who use several
parts.
-/

namespace Scim

inductive ProjectionError where
  /-- Attributes are asked for and excluded at the same time. -/
  | ambiguous
  | invalidAttribute (path : String) (fault : ReferenceFault)
  deriving DecidableEq

def invalidPathMessage (path : String) (fault : ReferenceFault) : String :=
  "Invalid path '" ++ path ++ "': " ++ fault.message

def ProjectionError.message : ProjectionError → String
  | .ambiguous => "'attributes' and 'excludedAttributes' cannot be specified together"
  | .invalidAttribute path fault => invalidPathMessage path fault

inductive ScimError where
  | filter (error : FilterError)
  | invalidPath (path : String) (fault : ReferenceFault)
  | patch (error : PatchError)
  | projection (error : ProjectionError)
  | schema (error : SchemaError)
  | json (error : Json.DecodeError)
  | invalidLimits (fault : Limits.Fault)

def ScimError.message : ScimError → String
  | .filter error => error.message
  | .invalidPath path fault => invalidPathMessage path fault
  | .patch error => "Patch error: " ++ error.message
  | .projection error => "Projection error: " ++ error.message
  | .schema error => "Schema error: " ++ error.message
  | .json error => "JSON error: " ++ error.message
  | .invalidLimits fault => "Invalid configuration: " ++ fault.message

end Scim
