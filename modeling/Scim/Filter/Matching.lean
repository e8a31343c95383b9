import Scim.Filter.Comparison
import Scim.View

/-!
# Matching resources

A filter never fails on a resource. A term about an unknown attribute, or about a value of another
shape than its attribute has, is simply not satisfied.

Inside `path[...]` the terms speak of one element of the attribute, by the names of its
sub-attributes.
-/

namespace Scim

/-- What the paths of a filter are looked up in. -/
inductive Scope where
  | resource (object : Object) (view : View)
  /-- One element of a complex attribute. -/
  | element (object : Object) (parent : Attribute)

/-- The single values in a stored value: the items of an array, and nothing for `null`. -/
def Json.flatten : Option Json → List Json
  | none => []
  | some .null => []
  | some (.array items) => items.filter (!·.isNull)
  | some value => [value]

/-- The values of a sub-attribute in all elements of a stored value. -/
def Json.subValues (stored : Option Json) (sub : String) : List Json :=
  (Json.flatten stored).flatMap fun value =>
    match value with
    | .object element => Json.flatten (Object.attribute? element sub)
    | _ => []

namespace Scope

/-- The values that a path stands for, and the definition they fall under. A complex attribute
stands for itself or, where a value is asked for, for its sub-attribute `value`. -/
def lookup? (scope : Scope) (path : Reference) (asValue : Bool) : Option (Attribute × List Json) :=
  match scope with
  | .resource object view => do
    let resolved ← view.resolveAttribute? path
    let stored := resolved.value? object
    match resolved.sub with
    | some sub => return (sub, Json.subValues stored sub.name)
    | none =>
      -- An attribute that has no such sub-attribute cannot be compared.
      if asValue && resolved.definition.isComplex then
        let sub ← resolved.definition.sub? "value"
        return (sub, Json.subValues stored sub.name)
      else return (resolved.definition, Json.flatten stored)
  | .element object parent =>
    if path.urn.isSome || path.sub.isSome then none
    else do
      let definition ← parent.sub? path.name
      return (definition, Json.flatten (object.attribute? definition.name))

end Scope

namespace Filter

def holds (scope : Scope) : Filter → Bool
  | .compare path operator literal =>
    match scope.lookup? path true with
    | some (definition, stored) => operator.holdsForValues definition stored literal
    | none => false
  | .present path =>
    match scope.lookup? path false with
    | some (_, stored) => stored.any Json.isPresent
    | none => false
  | .logical left .and right => holds scope left && holds scope right
  | .logical left .or right => holds scope left || holds scope right
  | .group negated inner => holds scope inner != negated
  | .valuePath path inner =>
    -- Elements of elements are not looked into.
    match scope with
    | .element _ _ => false
    | .resource object view =>
      match view.resolveAttribute? path with
      | none => false
      | some resolved =>
        if resolved.sub.isSome || !resolved.definition.isComplex then false
        else
          let holdsForElement := fun (value : Json) =>
            match value with
            | .object element => holds (.element element resolved.definition) inner
            | _ => false
          match resolved.value? object with
          | some (.array items) => items.any holdsForElement
          | some value => holdsForElement value
          | none => false

def matchesElement (filter : Filter) (parent : Attribute) (element : Json) : Bool :=
  match element with
  | .object fields => filter.holds (.element fields parent)
  | _ => false

def isMatch (filter : Filter) (view : View) (resource : Json) : Bool :=
  match resource with
  | .object object => filter.holds (.resource object view)
  | _ => false

end Filter

end Scim
