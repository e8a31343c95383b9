import Scim.Json.Document

/-!
# Decoding records

A record is decoded from an object, whose entries may come in any order, or from an array of its
fields in the order of their declaration. Entries are taken as they come, so the first fault of a
document is the one reported; only then are fields reported that are missing.

Documents come from text or from a value that has been read already. The two differ where a text is
held to a tighter grammar: surplus items of an array, and a choice that is neither a string nor an
object, are faults of the text itself, and faults of content in a value.
-/

namespace Scim.Json

inductive DecodeError where
  | notJson
  | invalidType
  | invalidValue
  | invalidLength
  | unknownVariant (name : String)
  | missingField (name : String)
  | duplicateField (name : String)
  /-- The content of a string is refused, for the given reason. -/
  | refused (reason : String)
  deriving DecidableEq

def DecodeError.message : DecodeError → String
  | .notJson => "not JSON"
  | .invalidType => "invalid type"
  | .invalidValue => "invalid value"
  | .invalidLength => "invalid length"
  | .unknownVariant name => "unknown variant `" ++ name ++ "`"
  | .missingField name => "missing field `" ++ name ++ "`"
  | .duplicateField name => "duplicate field `" ++ name ++ "`"
  | .refused reason => reason

inductive Origin where
  | text
  | value
  deriving DecidableEq

abbrev Decoder (α : Type) := Document → Except DecodeError α

/-- The fault of a document where something else is expected. A text is read up to the end of a
string, a number or a word before its type is considered, but not into an array or an object. -/
def Document.unexpected : Document → DecodeError
  | .number none => .notJson
  | .string none => .notJson
  | .broken => .notJson
  | _ => .invalidType

def decodeString : Decoder String
  | .string (some content) => .ok content
  | document => .error document.unexpected

def decodeBool : Decoder Bool
  | .bool value => .ok value
  | document => .error document.unexpected

/-- Counts are non-negative integers. -/
def decodeCount : Decoder Nat
  | .number (some (.integer n)) => if n < 0 then .error .invalidValue else .ok n.toNat
  | document => .error document.unexpected

/-- Any value, nested at most `room` deep. -/
def decodeValue (room : Nat) : Decoder Json := fun document =>
  match document.value? room with
  | some value => .ok value
  | none => .error .notJson

/-- `null` stands for an absent value. -/
def decodeOptional {α : Type} (decode : Decoder α) : Decoder (Option α)
  | .null => .ok none
  | document => (decode document).map some

/-- A string whose content has a grammar of its own. -/
def decodeParsed {α : Type} (parse : String → Except String α) : Decoder α := fun document => do
  let content ← decodeString document
  match parse content with
  | .ok value => return value
  | .error reason => throw (.refused reason)

/-- An array, where `room` counts the levels that may still be opened. -/
def decodeList {α : Type} (room : Nat) (decode : Decoder α) : Decoder (List α)
  | .array items closed => do
    if room = 0 then throw .notJson
    -- A fault of an item is reported before the missing bracket behind it.
    let values ← items.mapM decode
    if closed then return values else throw .notJson
  | document => .error document.unexpected

/-- One of several named values, given by its name or as an object that maps its name to `null`. -/
def decodeChoice {α : Type} (origin : Origin) (room : Nat) (names : List (String × α)) : Decoder α
  | .string (some name) => choose name
  | .object entries closed => do
    if origin = .value then
      if entries.length != 1 then throw .invalidValue
    else if room = 0 then throw .notJson
    match entries with
    | (some name, payload) :: rest =>
      let value ← choose name
      match payload with
      | .null => if rest.isEmpty && closed then return value else throw .notJson
      | other => throw other.unexpected
    | _ => throw .notJson
  | document =>
    match origin with
    | .text => .error .notJson
    | .value => .error document.unexpected
where
  choose (name : String) : Except DecodeError α :=
    match names.lookup name with
    | some value => .ok value
    | none => .error (.unknownVariant name)

structure RecordField (Record : Type) where
  name : String
  /-- A second name under which the field is accepted. -/
  otherName : Option String := none
  /-- Whether the record is incomplete without the field. -/
  required : Bool := false
  store : Document → Record → Except DecodeError Record

variable {Record : Type}

def RecordField.answersTo (field : RecordField Record) (key : String) : Bool :=
  field.name == key || field.otherName == some key

/-- Stores the entries of an object one after the other; `stored` names the fields that have come
already. -/
def storeEntries (fields : List (RecordField Record)) (record : Record) (stored : List String) :
    List (Option String × Document) → Except DecodeError (Record × List String)
  | [] => .ok (record, stored)
  | (none, _) :: _ => .error .notJson
  | (some key, document) :: rest =>
    match fields.find? (RecordField.answersTo · key) with
    -- An unknown entry is passed over, which takes reading it to its end.
    | none =>
      if document.complete then storeEntries fields record stored rest else .error .notJson
    | some field =>
      if field.name ∈ stored then .error (.duplicateField field.name)
      else do
        let record ← field.store document record
        storeEntries fields record (field.name :: stored) rest

/-- Stores the items of an array in the order of the fields. -/
def storeItems (origin : Origin) (closed : Bool) (record : Record) :
    List (RecordField Record) → List Document → Except DecodeError Record
  | [], [] => if closed then .ok record else .error .notJson
  | [], _ :: _ => .error (match origin with | .text => .notJson | .value => .invalidLength)
  | field :: fields, [] =>
    if !closed then .error .notJson
    else if field.required then .error .invalidLength
    else storeItems origin closed record fields []
  | field :: fields, item :: items => do
    let record ← field.store item record
    storeItems origin closed record fields items

/-- Decodes a record, starting from one that holds the defaults of all fields. -/
def decodeRecord (origin : Origin) (room : Nat) (fields : List (RecordField Record)) (defaults : Record) :
    Decoder Record
  | .object entries closed => do
    if room = 0 then throw .notJson
    let (record, stored) ← storeEntries fields defaults [] entries
    if !closed then throw .notJson
    match fields.find? fun field => field.required && !stored.contains field.name with
    | some field => throw (.missingField field.name)
    | none => return record
  | .array items closed => do
    if room = 0 then throw .notJson
    storeItems origin closed defaults fields items
  | document => .error document.unexpected

def decodeText {α : Type} (decode : Decoder α) (text : String) : Except DecodeError α := do
  let (document, ended) := Document.read text
  let value ← decode document
  if ended then return value else throw .notJson

end Scim.Json
