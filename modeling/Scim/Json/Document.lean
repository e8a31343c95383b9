import Scim.Json.NumberLiteral
import Scim.Json.StringLiteral

/-!
# JSON text, front to back

A document is what a text holds as far as it can be read. Where the text stops being JSON the
document breaks off, so whoever decodes it meets the faults of the text and the faults of its
content in the order in which they stand there, and reports the first. Objects keep the order and
the repetitions of the text.

Some text is well formed and has no value all the same: numbers out of range, lone surrogates, and
nesting beyond `maxNesting`. Such parts may stand in a document as long as nobody asks for their
value.
-/

namespace Scim.Json

inductive Document where
  | null
  | bool (value : Bool)
  | number (value : Option Number)
  | string (content : Option String)
  | array (items : List Document) (closed : Bool)
  | object (entries : List (Option String × Document)) (closed : Bool)
  | broken

/-- The number of levels to which arrays and objects may be nested in a value that is read. -/
def maxNesting : Nat := 127

/-! ### Reading -/

def isJsonSpace (c : Char) : Bool := c == ' ' || c == '\n' || c == '\t' || c == '\r'

def skipSpace (text : List Char) : List Char := text.dropWhile isJsonSpace

def keywords : List (List Char × Document) :=
  [(['n', 'u', 'l', 'l'], .null), (['t', 'r', 'u', 'e'], .bool true),
   (['f', 'a', 'l', 's', 'e'], .bool false)]

/-- Reads a value that is neither a string, an array nor an object. -/
def readSimple (text : List Char) : Document × Option (List Char) :=
  -- What may follow a word is left to the reader of what stands around it.
  match keywords.find? (·.1.isPrefixOf text) with
  | some (word, value) => (value, some (text.drop word.length))
  | none =>
    match NumberLiteral.scan text with
    | some (literal, rest) => (.number literal.value?, some rest)
    | none => (.broken, none)

def readString (body : List Char) : Option (Option String × List Char) :=
  match readPieces body with
  | some (pieces, rest) => some ((joinPieces none pieces).map String.ofList, rest)
  | none => none

mutual

/-- Reads the value that a text starts with, and returns the text behind it if the value is
complete. Every step consumes a character, so the length of the text bounds the number of steps. -/
def readValue : Nat → List Char → Document × Option (List Char)
  | 0, _ => (.broken, none)
  | steps + 1, text =>
    match skipSpace text with
    | '"' :: body =>
      match readString body with
      | some (content, rest) => (.string content, some rest)
      | none => (.broken, none)
    | '[' :: body =>
      match skipSpace body with
      | ']' :: rest => (.array [] true, some rest)
      | body =>
        -- An array that is not closed keeps the items that have been read.
        let (items, rest) := readItems steps body
        (.array items rest.isSome, rest)
    | '\x7b' :: body =>
      match skipSpace body with
      | '\x7d' :: rest => (.object [] true, some rest)
      | body =>
        let (entries, rest) := readEntries steps body
        (.object entries rest.isSome, rest)
    | text => readSimple text

def readItems : Nat → List Char → List Document × Option (List Char)
  | 0, _ => ([], none)
  | steps + 1, text =>
    match readValue steps text with
    | (item, none) => ([item], none)
    | (item, some rest) =>
      match skipSpace rest with
      | ']' :: rest => ([item], some rest)
      | ',' :: rest =>
        let (items, rest) := readItems steps rest
        (item :: items, rest)
      | _ => ([item], none)

def readEntries : Nat → List Char → List (Option String × Document) × Option (List Char)
  | 0, _ => ([], none)
  | steps + 1, text =>
    match skipSpace text with
    | '"' :: body =>
      match readString body with
      | none => ([], none)
      | some (key, rest) =>
        match skipSpace rest with
        | ':' :: rest =>
          match readValue steps rest with
          | (value, none) => ([(key, value)], none)
          | (value, some rest) =>
            match skipSpace rest with
            | '\x7d' :: rest => ([(key, value)], some rest)
            | ',' :: rest =>
              let (entries, rest) := readEntries steps rest
              ((key, value) :: entries, rest)
            | _ => ([(key, value)], none)
        -- A key by itself is still known to what decodes the object.
        | _ => ([(key, .broken)], none)
    | _ => ([], none)

end

/-- The document that a text holds, and whether nothing but space follows it. -/
def Document.read (text : String) : Document × Bool :=
  match readValue (2 * text.toList.length + 2) text.toList with
  | (document, some rest) => (document, (skipSpace rest).isEmpty)
  | (document, none) => (document, false)

namespace Document

def complete : Document → Bool
  | .array _ closed => closed
  | .object _ closed => closed
  | .broken => false
  | _ => true

/-! ### Values -/

mutual

/-- The value of a document in which arrays and objects are nested at most `room` deep. -/
def value? (room : Nat) : Document → Option Json
  | .null => some .null
  | .bool value => some (.bool value)
  | .number value => value.map .number
  | .string content => content.map .string
  | .array items closed =>
    match room with
    | 0 => none
    | room + 1 => if closed then (itemValues? room items).map .array else none
  | .object entries closed =>
    match room with
    | 0 => none
    | room + 1 =>
      if closed then (entryValues? room entries).map fun entries => .object (Object.ofEntries entries)
      else none
  | .broken => none

def itemValues? (room : Nat) : List Document → Option (List Json)
  | [] => some []
  | item :: rest => do
    let value ← value? room item
    let values ← itemValues? room rest
    return value :: values

def entryValues? (room : Nat) : List (Option String × Document) → Option (List (String × Json))
  | [] => some []
  | (key, document) :: rest => do
    let key ← key
    let value ← value? room document
    let values ← entryValues? room rest
    return (key, value) :: values

end

mutual

/-- A value as a document, its entries in the order of their keys. -/
def ofJson : Json → Document
  | .null => .null
  | .bool value => .bool value
  | .number value => .number (some value)
  | .string value => .string (some value)
  | .array items => .array (ofItems items) true
  | .object entries => .object (ofEntries entries) true

def ofItems : List Json → List Document
  | [] => []
  | item :: rest => ofJson item :: ofItems rest

def ofEntries : Object → List (Option String × Document)
  | [] => []
  | (key, value) :: rest => (some key, ofJson value) :: ofEntries rest

end

mutual

def nesting : Document → Nat
  | .array items _ => nestingOfItems items + 1
  | .object entries _ => nestingOfEntries entries + 1
  | _ => 0

def nestingOfItems : List Document → Nat
  | [] => 0
  | item :: rest => max (nesting item) (nestingOfItems rest)

def nestingOfEntries : List (Option String × Document) → Nat
  | [] => 0
  | (_, value) :: rest => max (nesting value) (nestingOfEntries rest)

end

end Document

def read? (text : String) : Option Json :=
  match Document.read text with
  | (document, true) => document.value? maxNesting
  | (_, false) => none

end Scim.Json
