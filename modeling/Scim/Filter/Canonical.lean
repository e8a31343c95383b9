import Scim.Filter.Basic
import Scim.View

/-!
# Canonical names

A filter in canonical form spells names as the schema declares them. Names that resolve to nothing
stay as they are written.
-/

namespace Scim.Filter

/-- A reference with the names of its declaration. Inside `path[...]` names are those of the
sub-attributes of `parent`. -/
def canonicalPath (view : View) (parent : Option Attribute) (path : Reference) : Reference :=
  match parent with
  | some parent =>
    match parent.sub? path.name with
    | some sub => { path with name := sub.name }
    | none => path
  | none =>
    match view.resolveAttribute? path with
    | some resolved => resolved.canonicalReference path
    | none => path

def canonicalIn (view : View) (parent : Option Attribute) : Filter → Filter
  | .compare path operator literal => .compare (canonicalPath view parent path) operator literal
  | .present path => .present (canonicalPath view parent path)
  | .logical left connective right =>
    .logical (canonicalIn view parent left) connective (canonicalIn view parent right)
  | .group negated inner => .group negated (canonicalIn view parent inner)
  | .valuePath path inner =>
    let element :=
      match parent with
      | some _ => none
      | none => (view.resolveAttribute? path).map Resolved.definition
    .valuePath (canonicalPath view parent path) (canonicalIn view element inner)

/-- The filter with names in the case of their declaration. -/
def canonicalize (filter : Filter) (view : View) : Filter := canonicalIn view none filter

end Scim.Filter
