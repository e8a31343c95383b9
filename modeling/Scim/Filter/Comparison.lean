import Scim.Filter.Basic
import Scim.Instant
import Scim.Resource.Access
import Scim.Schema.Attribute
import Scim.Text.LowerCase

/-!
# Comparing stored values

How a stored value compares with a literal is decided by the type of the attribute. Where the two
cannot be compared, by their types or by the operator, the comparison has no answer, which counts as
no match.
-/

namespace Scim

namespace Text

/-- The order of two texts by code points. -/
def order (left right : List Char) : Ordering :=
  if left < right then .lt else if left = right then .eq else .gt

def occursIn (part : List Char) : List Char → Bool
  | [] => part.isEmpty
  | c :: rest => part.isPrefixOf (c :: rest) || occursIn part rest

end Text

namespace Operator

/-- Compares texts; without `caseExact` both are lowercased first. -/
def holdsForText? (operator : Operator) (caseExact : Bool) (stored literal : String) : Option Bool :=
  let form := fun (text : String) => if caseExact then text.toList else Text.lowerCase text.toList
  match operator with
  | .co => some (Text.occursIn (form literal) (form stored))
  | .sw => some ((form literal).isPrefixOf (form stored))
  | .ew => some ((form literal).isSuffixOf (form stored))
  | _ => operator.holdsFor? (Text.order (form stored) (form literal))

def holdsForValue? (operator : Operator) (definition : Attribute) (stored literal : Json) : Option Bool :=
  match definition.type with
  | .string | .reference => do
    operator.holdsForText? definition.caseExact (← stored.string?) (← literal.string?)
  | .binary => do operator.holdsForEquality? ((← stored.string?) == (← literal.string?))
  | .boolean => do operator.holdsForEquality? ((← stored.bool?) == (← literal.bool?))
  | .integer | .decimal =>
    match stored, literal with
    | .number a, .number b => (a.order? b).bind operator.holdsFor?
    | _, _ => none
  | .dateTime => do
    let left ← (← stored.string?) |> Instant.read?
    let right ← (← literal.string?) |> Instant.read?
    operator.holdsFor? (left.order right)
  | .complex => none

/-- Compares the stored values of an attribute with a literal: one value that compares is enough. A
`null` literal asks whether anything is stored at all. -/
def holdsForValues (operator : Operator) (definition : Attribute) (stored : List Json) (literal : Json) :
    Bool :=
  match literal with
  | .null =>
    match operator with
    | .eq => !stored.any Json.isPresent
    | .ne => stored.any Json.isPresent
    | _ => false
  | _ => stored.any fun value => (operator.holdsForValue? definition value literal).getD false

end Operator

end Scim
