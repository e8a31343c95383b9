import Scim.Filter.Basic
import Scim.Json.Printer

/-!
# Filter text

Keywords are written in small letters. `and` binds tighter than `or`, and chains of one connective
group to the left; an operand that would be read back into another tree is put in parentheses.
-/

namespace Scim.Filter

/-- Whether an operand has to be put in parentheses to stay together under a connective. -/
def needsParentheses (operand : Filter) (outer : Connective) (isRight : Bool) : Bool :=
  match operand with
  | .logical _ .or _ => if outer = .and then true else isRight
  | .logical _ .and _ => if outer = .or then false else isRight
  | _ => false

def parenthesizeIf (needed : Bool) (text : String) : String :=
  if needed then "(" ++ text ++ ")" else text

def text : Filter → String
  | .compare path operator literal => path.text ++ " " ++ operator.keyword ++ " " ++ literal.text
  | .present path => path.text ++ " pr"
  | .logical left connective right =>
    parenthesizeIf (left.needsParentheses connective false) left.text ++
      " " ++ connective.keyword ++ " " ++
      parenthesizeIf (right.needsParentheses connective true) right.text
  | .group negated inner => (if negated then "not (" else "(") ++ inner.text ++ ")"
  | .valuePath path inner => path.text ++ "[" ++ inner.text ++ "]"

end Scim.Filter
