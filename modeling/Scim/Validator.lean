import Scim.Registry

/-!
# Schema validator

A command line tool that checks schema documents before they are put to use. A single document is
summarised; the documents of a directory are checked one after the other and, if all are valid,
registered together, each as a resource type of its own, which shows schemas with one URN and
different definitions.

What is here is the whole tool except for the reading of files: it takes what stands at the path of
its argument and gives back what to print and how to end.
-/

namespace Scim.Validator

inductive Content where
  | text (content : String)
  /-- The file cannot be read, for the given reason. -/
  | unreadable (reason : String)

inductive Input where
  | missing
  | file (content : Content)
  /-- The entries of a directory by name, in any order. -/
  | directory (entries : List (String × Content))
  /-- The directory cannot be listed, for the given reason. -/
  | unlistable (reason : String)

structure Report where
  exit : Nat := 0
  out : List String := []
  err : List String := []

namespace Report

def print (report : Report) (lines : List String) : Report := { report with out := report.out ++ lines }

def complain (report : Report) (line : String) : Report := { report with err := report.err ++ [line] }

def fail (report : Report) : Report := { report with exit := 1 }

def lines (text : List String) : String := String.join (text.map (· ++ "\n"))

def stdout (report : Report) : String := lines report.out

def stderr (report : Report) : String := lines report.err

end Report

/-! ### Checking a document -/

inductive Fault where
  | unreadable (reason : String)
  | notJson
  | notObject
  | missingField (name : String)
  | schema (error : SchemaError)
  | idNotUri
  | emptyName
  | noAttributes
  deriving DecidableEq

def Fault.message : Fault → String
  | .unreadable reason => reason
  | .notJson => Json.DecodeError.notJson.message
  | .notObject => "Schema must be a JSON object"
  | .missingField name => "Schema missing required '" ++ name ++ "' field"
  | .schema error => error.message
  | .idNotUri => "Schema ID should be a URI (starting with 'urn:' or 'http')"
  | .emptyName => "Schema name cannot be empty"
  | .noAttributes => "Schema must have at least one attribute"

/-- The fields that a document may not leave out here. -/
def requiredFields : List String := ["id", "name", "attributes"]

def isUri (id : String) : Bool :=
  "urn:".toList.isPrefixOf id.toList || "http".toList.isPrefixOf id.toList

/-- Checks what a schema has to have beyond being valid. -/
def checkSchema (schema : Schema) : Except Fault Unit := do
  if !isUri schema.id then throw .idNotUri
  if schema.name.isEmpty then throw .emptyName
  if schema.attributes.isEmpty then throw .noAttributes

def checkText (text : String) : Except Fault Schema := do
  let some value := Json.read? text | throw .notJson
  let some object := value.object? | throw .notObject
  match requiredFields.find? fun name => (object.get? name).isNone with
  | some name => throw (.missingField name)
  | none => pure ()
  let schema ← (Schema.ofText text).mapError .schema
  checkSchema schema
  return schema

def check : Content → Except Fault Schema
  | .text content => checkText content
  | .unreadable reason => .error (.unreadable reason)

/-! ### One document -/

def typesByTitle : List AttributeType :=
  [.binary, .boolean, .complex, .dateTime, .decimal, .integer, .reference, .string]

def summary (schema : Schema) : List String :=
  let attributes := schema.attributes
  let required := attributes.filter (·.required)
  let counts := typesByTitle.filterMap fun type =>
    let count := attributes.countP (·.type == type)
    if count = 0 then none else some ("    - " ++ type.title ++ ": " ++ toString count)
  ["",
    "Schema Summary:",
    "  ID: " ++ schema.id,
    "  Name: " ++ schema.name,
    "  Description: " ++ schema.description,
    "  Attributes: " ++ toString attributes.length,
    "  Required attributes: " ++ toString required.length,
    "  Multi-valued attributes: " ++ toString (attributes.countP (·.multiValued)),
    "  Attribute types:"] ++
  counts ++
  if required.isEmpty then []
  else ["  Required attribute names: " ++ String.intercalate ", " (required.map (·.name))]

def reportFile (path : String) (content : Content) : Report :=
  let report : Report := { out := ["Validating schema file: " ++ path] }
  match check content with
  | .ok schema => report.print ("✓ Schema is valid!" :: summary schema)
  | .error fault => (report.complain ("❌ Schema validation failed: " ++ fault.message)).fail

/-! ### A directory -/

/-- Whether the name of a file ends in `.json` and has something before that. -/
def isDocumentName (name : String) : Bool :=
  match Text.splitLast '.' name.toList with
  | some (stem, extension) => !stem.isEmpty && extension == ['j', 's', 'o', 'n']
  | none => false

/-- The documents of a directory in the order of their names. -/
def documents (entries : List (String × Content)) : List (String × Content) :=
  (entries.filter (isDocumentName ·.1)).mergeSort fun left right => !decide (right.1 < left.1)

/-- Registers schemas together, each as a resource type named and placed by the name of the schema.
-/
def buildRegistry (schemas : List Schema) : Except SchemaError Registry :=
  schemas.foldlM
    (fun registry schema =>
      registry.register
        { resourceType := ResourceType.simple schema.name ("/" ++ schema.name) schema.id
          base := schema })
    {}

/-- Reports on documents one after the other, and collects the valid schemas. -/
def reportDocuments (report : Report) (valid : List Schema) : List (String × Content) → Report × List Schema
  | [] => (report, valid)
  | (name, content) :: rest =>
    let report := report.print ["", "Validating: " ++ name]
    match check content with
    | .ok schema =>
      reportDocuments (report.print ["  ✓ Valid - " ++ schema.name ++ " (" ++ schema.id ++ ")"])
        (valid ++ [schema]) rest
    | .error fault => reportDocuments (report.complain ("  ❌ Invalid - " ++ fault.message)) valid rest

def reportRegistry (report : Report) (schemas : List Schema) : Report :=
  let report := report.print ["", "Testing schema registry loading..."]
  match buildRegistry schemas with
  | .ok registry =>
    let loaded := registry.schemasByUrn
    report.print
      (["✓ Schema registry loaded successfully", "  Total schemas loaded: " ++ toString loaded.length] ++
        loaded.map fun schema => "    - " ++ schema.name ++ " (" ++ schema.id ++ ")")
  | .error error => (report.complain ("❌ Failed to load schema registry: " ++ error.message)).fail

def reportDirectory (path : String) (entries : List (String × Content)) : Report :=
  let found := documents entries
  let start : Report := { out := ["Validating schemas in directory: " ++ path] }
  let (report, valid) := reportDocuments start [] found
  let invalid := found.length - valid.length
  let report := report.print
    ["", "Validation Summary:", "  Valid schemas: " ++ toString valid.length,
      "  Invalid schemas: " ++ toString invalid]
  if 0 < invalid then report.fail else reportRegistry report valid

/-! ### The command line -/

def usage (program : String) : Report :=
  { exit := 1
    err := ["Usage: " ++ program ++ " <schema-file-or-directory>", "", "Examples:",
      "  " ++ program ++ " schemas/User.json", "  " ++ program ++ " ./schemas/"] }

/-- Reports on what stands at a path. -/
def report (path : String) : Input → Report
  | .missing => { exit := 1, err := ["Error: '" ++ path ++ "' is not a valid file or directory"] }
  | .file content => reportFile path content
  | .directory entries => reportDirectory path entries
  | .unlistable reason =>
    { exit := 1
      out := ["Validating schemas in directory: " ++ path]
      err := ["Error reading directory: " ++ reason] }

end Scim.Validator
