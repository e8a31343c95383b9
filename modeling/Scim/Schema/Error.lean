import Scim.Json.Decode

/-!
# Faults of schemas and registrations
-/

namespace Scim

inductive AttributeFault where
  /-- The schema itself has no URN. -/
  | emptySchemaId
  | emptyName
  | duplicateName
  /-- A complex attribute is made of nothing. -/
  | noSubAttributes
  /-- A complex attribute is part of another one. -/
  | nestedComplex
  /-- An attribute that is not complex has sub-attributes. -/
  | subAttributesOnSimple
  /-- Canonical values are given for values that are no text. -/
  | canonicalValuesOnNonText
  deriving DecidableEq

def AttributeFault.message : AttributeFault → String
  | .emptySchemaId => "schema id cannot be empty"
  | .emptyName => "attribute name cannot be empty"
  | .duplicateName => "duplicate attribute name"
  | .noSubAttributes => "complex attribute must declare sub-attributes"
  | .nestedComplex => "complex attributes cannot be nested"
  | .subAttributesOnSimple => "only complex attributes may have sub-attributes"
  | .canonicalValuesOnNonText => "canonical values are only allowed on strings"

inductive ResourceTypeFault where
  | noId
  | noSchema
  | noEndpoint
  | schemaMismatch (base declared : String)
  | duplicateId
  | undeclaredExtension (urn : String)
  deriving DecidableEq

def ResourceTypeFault.message : ResourceTypeFault → String
  | .noId => "resource type id is required"
  | .noSchema => "base schema URN is required"
  | .noEndpoint => "endpoint is required"
  | .schemaMismatch base declared =>
    "base schema '" ++ base ++ "' does not match declared schema '" ++ declared ++ "'"
  | .duplicateId => "resource type id is already registered"
  | .undeclaredExtension urn => "extension '" ++ urn ++ "' is not declared"

inductive SchemaError where
  | invalidResourceType (id : String) (fault : ResourceTypeFault)
  | duplicateSchema (urn : String)
  | duplicateEndpoint (endpoint : String)
  | unknownExtension (resourceType urn : String)
  | invalidAttribute (schema path : String) (fault : AttributeFault)
  | json (error : Json.DecodeError)
  /-- A schema file cannot be read, for the given reason. -/
  | unreadable (reason : String)
  deriving DecidableEq

def SchemaError.message : SchemaError → String
  | .invalidResourceType id fault => "Invalid resource type '" ++ id ++ "': " ++ fault.message
  | .duplicateSchema urn =>
    "Schema '" ++ urn ++ "' is already registered with a different definition"
  | .duplicateEndpoint endpoint => "Endpoint '" ++ endpoint ++ "' is already registered"
  | .unknownExtension resourceType urn =>
    "Resource type '" ++ resourceType ++ "' declares unknown extension '" ++ urn ++ "'"
  | .invalidAttribute schema path fault =>
    "Attribute '" ++ path ++ "' in schema '" ++ schema ++ "' is invalid: " ++ fault.message
  | .json error => "JSON error: " ++ error.message
  | .unreadable reason => "I/O error: " ++ reason

end Scim
