import Scim.Json.StringLiteral
import Scim.Json.Basic
import Scim.Number.Shortest

/-!
# Compact JSON text

No space between tokens, entries in the order of the object.
-/

namespace Scim

def Number.text : Number → String
  | .integer n => toString n
  | .float x => x.text

namespace Json

mutual

/-- The characters of a value in compact form. -/
def written : Json → List Char
  | .null => ['n', 'u', 'l', 'l']
  | .bool true => ['t', 'r', 'u', 'e']
  | .bool false => ['f', 'a', 'l', 's', 'e']
  | .number value => value.text.toList
  | .string value => quote value.toList
  | .array items => '[' :: [','].intercalate (writtenItems items) ++ [']']
  | .object entries => '\x7b' :: [','].intercalate (writtenEntries entries) ++ ['\x7d']

def writtenItems : List Json → List (List Char)
  | [] => []
  | item :: rest => written item :: writtenItems rest

def writtenEntries : Object → List (List Char)
  | [] => []
  | (key, value) :: rest => (quote key.toList ++ ':' :: written value) :: writtenEntries rest

end

def text (value : Json) : String := String.ofList value.written

end Json

end Scim
