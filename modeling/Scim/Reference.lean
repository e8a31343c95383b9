import Scim.Text.Ascii
import Scim.Text.Split

/-!
# Attribute references

A reference names an attribute or a sub-attribute, optionally qualified by the URN of its schema:
`name.familyName`, `urn:acme:badge:2.0:Card:colour`. A URN contains colons and dots of its own. The
URN ends at the last colon, and only what follows is split at a dot. Where that remainder starts
with a digit it cannot be an attribute name and is kept whole: then the text can only be a URN that
ends in a version.
-/

namespace Scim

structure Reference where
  urn : Option String
  name : String
  sub : Option String
  deriving DecidableEq

inductive ReferenceFault where
  | emptyPath
  | emptyUrn
  /-- Nothing follows the last colon. -/
  | urnAlone
  | emptyName
  | invalidName (name : String)
  | tooManySegments
  deriving DecidableEq

def ReferenceFault.message : ReferenceFault → String
  | .emptyPath => "attribute path is empty"
  | .emptyUrn => "schema URN is empty"
  | .urnAlone => "schema URN must be followed by an attribute name"
  | .emptyName => "attribute name is empty"
  | .invalidName name => "'" ++ name ++ "' is not a valid attribute name"
  | .tooManySegments => "at most two path segments are allowed"

/-! ### Names -/

def isNameChar (c : Char) : Bool := c.isAlphanum || c == '-' || c == '_'

/-- A letter followed by letters, digits, `-` and `_`; `$ref` is a name as well. -/
def isName : List Char → Bool
  | [] => false
  | c :: rest => c.isAlpha && rest.all isNameChar || c :: rest == ['$', 'r', 'e', 'f']

/-- The last segment of a URN when it is a version such as `2.0`. -/
def isVersion : List Char → Bool
  | [] => false
  | c :: rest => c.isDigit && rest.all fun c => isNameChar c || c == '.'

def checkName (name : List Char) : Except ReferenceFault Unit :=
  if name.isEmpty then .error .emptyName
  else if isName name then .ok ()
  else .error (.invalidName (String.ofList name))

/-! ### Reading -/

namespace Reference

/-- Reads the part of a reference that follows the URN. -/
def parseNames (urn : Option String) (path : List Char) : Except ReferenceFault Reference :=
  match Text.splitFirst '.' path with
  | none => do
    checkName path
    return ⟨urn, String.ofList path, none⟩
  | some (name, sub) => do
    checkName name
    if '.' ∈ sub then throw .tooManySegments
    checkName sub
    return ⟨urn, String.ofList name, some (String.ofList sub)⟩

def parse (text : String) : Except ReferenceFault Reference :=
  if text.toList.isEmpty then .error .emptyPath
  else
    match Text.splitLast ':' text.toList with
    | none => parseNames none text.toList
    | some (urn, path) =>
      if path.isEmpty then .error .urnAlone
      else if urn.isEmpty then .error .emptyUrn
      else if isVersion path then .ok ⟨some (String.ofList urn), String.ofList path, none⟩
      else parseNames (some (String.ofList urn)) path

/-! ### Writing -/

def text (reference : Reference) : String :=
  (match reference.urn with
    | some urn => urn ++ ":"
    | none => "") ++
  reference.name ++
  (match reference.sub with
    | some sub => "." ++ sub
    | none => "")

/-! ### Equality -/

/-- What two references have in common if they name the same thing: the URN as it is written and the
names up to ASCII case. -/
def key (reference : Reference) : Option String × List Char × Option (List Char) :=
  (reference.urn, Text.fold reference.name, reference.sub.map Text.fold)

def same (left right : Reference) : Bool := left.key == right.key

theorem same_iff {left right : Reference} : left.same right = true ↔ left.key = right.key := by
  simp [same]

/-! ### Related references -/

/-- The URN of the whole schema that a reference without sub-attribute could name. -/
def asSchemaUrn? (reference : Reference) : Option String :=
  match reference.urn, reference.sub with
  | some urn, none => some (urn ++ ":" ++ reference.name)
  | _, _ => none

def withSub (reference : Reference) (sub : String) : Reference := { reference with sub := some sub }

/-- The attribute itself, for a reference to a sub-attribute. -/
def parent (reference : Reference) : Reference := { reference with sub := none }

end Reference

end Scim
