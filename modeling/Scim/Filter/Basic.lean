import Scim.Json.Basic
import Scim.Reference

/-!
# Filter expressions

The tree of a filter keeps what was written: parentheses are nodes of their own, with or without
`not`, so that a filter can be written back as it was.
-/

namespace Scim

inductive Operator where
  | eq | ne | co | sw | ew | gt | ge | lt | le
  deriving DecidableEq

namespace Operator

def all : List Operator := [.eq, .ne, .co, .sw, .ew, .gt, .ge, .lt, .le]

def keyword : Operator → String
  | .eq => "eq"
  | .ne => "ne"
  | .co => "co"
  | .sw => "sw"
  | .ew => "ew"
  | .gt => "gt"
  | .ge => "ge"
  | .lt => "lt"
  | .le => "le"

/-- The operator with a given keyword, in any ASCII case. -/
def ofKeyword? (word : String) : Option Operator :=
  all.find? fun operator => Text.sameName operator.keyword word

def isOrdering : Operator → Bool
  | .gt | .ge | .lt | .le => true
  | _ => false

/-- What an ordering of two values says about the operator; the substring operators say nothing. -/
def holdsFor? (operator : Operator) (order : Ordering) : Option Bool :=
  match operator with
  | .eq => some (order == .eq)
  | .ne => some (order != .eq)
  | .gt => some (order == .gt)
  | .ge => some (order != .lt)
  | .lt => some (order == .lt)
  | .le => some (order != .gt)
  | .co | .sw | .ew => none

/-- What equality of two values without an order says about the operator. -/
def holdsForEquality? (operator : Operator) (equal : Bool) : Option Bool :=
  match operator with
  | .eq => some equal
  | .ne => some !equal
  | _ => none

end Operator

inductive Connective where
  | and
  | or
  deriving DecidableEq

def Connective.keyword : Connective → String
  | .and => "and"
  | .or => "or"

inductive Filter where
  | compare (path : Reference) (operator : Operator) (literal : Json)
  | present (path : Reference)
  | logical (left : Filter) (connective : Connective) (right : Filter)
  /-- `( inner )`, or `not ( inner )` -/
  | group (negated : Bool) (inner : Filter)
  /-- `path[inner]`, where the inner filter speaks of one element -/
  | valuePath (path : Reference) (inner : Filter)

namespace Filter

/-- Equality of trees: references up to the case of names, literals as JSON values. -/
def same : Filter → Filter → Bool
  | .compare p op v, .compare q op' w => p.same q && op == op' && v.same w
  | .present p, .present q => p.same q
  | .logical l c r, .logical l' c' r' => same l l' && c == c' && same r r'
  | .group n f, .group m g => n == m && same f g
  | .valuePath p f, .valuePath q g => p.same q && same f g
  | _, _ => false

/-- How deep parentheses and brackets are nested. -/
def depth : Filter → Nat
  | .compare .. | .present _ => 0
  | .logical left _ right => max left.depth right.depth
  | .group _ inner | .valuePath _ inner => inner.depth + 1

end Filter

end Scim
