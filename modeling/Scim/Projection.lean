import Scim.Error
import Scim.View

/-!
# Projection

What a client gets to see of a resource is decided attribute by attribute, from how the schema says
the attribute is returned and from what the client asks for or excludes. Attributes that are never
returned or only written are left out before anything else is considered, so nothing about them can
be learned; the same holds of sub-attributes. What is left empty is left out.

An attribute is visible as a whole, or only in the sub-attributes that are asked for or always
returned.
-/

namespace Scim

/-- What a client asks for and excludes. At most one of the lists may name anything. -/
structure Selection where
  included : List Reference := []
  excluded : List Reference := []
  deriving DecidableEq

/-- An entry of a selection bound to what it names. -/
inductive Selected where
  | extension (place : Place)
  | definition (place : Place) (definition : Attribute) (sub : Option Attribute)

/-- How a list of selected entries mentions one attribute. -/
structure Mentions where
  /-- The attribute, or the whole extension it belongs to. -/
  whole : Bool
  subs : List Attribute

namespace Selected

/-- The entries of a list that name something. Other entries have no effect. -/
def ofReferences (view : View) (references : List Reference) : List Selected :=
  references.filterMap fun reference =>
    match view.resolve? reference with
    | some (.extension member) => some (.extension member.place)
    | some (.definition resolved) =>
      some (.definition resolved.member.place resolved.definition resolved.sub)
    | none => none

/-- Whether an entry names an attribute of a member, or one of its sub-attributes. -/
def mentions (member : Member) (definition : Attribute) : Selected → Bool
  | .extension place => place == member.place
  | .definition place named _ =>
    place == member.place && Text.sameName named.name definition.name

/-- The sub-attribute that an entry names, if it names one. -/
def sub? : Selected → Option Attribute
  | .extension _ => none
  | .definition _ _ sub => sub

end Selected

def Mentions.ofSelected (selected : List Selected) (member : Member) (definition : Attribute) : Mentions :=
  let entries := selected.filter (Selected.mentions member definition)
  ⟨entries.any (·.sub?.isNone), entries.filterMap Selected.sub?⟩

def Mentions.includesSub (mentions : Mentions) (sub : Attribute) : Bool :=
  mentions.subs.any fun named => Text.sameName named.name sub.name

structure Projection where
  view : View
  /-- Whether the client asks for attributes by name. -/
  asks : Bool
  included : List Selected
  excluded : List Selected

/-- Whether an attribute is kept from clients altogether. -/
def Attribute.isHidden (definition : Attribute) : Bool :=
  definition.returned == .never || definition.mutability == .writeOnly

inductive Visibility where
  | none
  /-- Only sub-attributes that are asked for or always returned. -/
  | parts
  | whole
  deriving DecidableEq

def visibility (returned : Returned) (asks : Bool) (included excluded : Mentions) : Visibility :=
  match returned with
  | .never => .none
  | .always => if included.whole || included.subs.isEmpty then .whole else .parts
  | .default =>
    if asks then asked
    else if excluded.whole then .none
    else .whole
  | .request => if asks then asked else .none
where
  asked : Visibility :=
    if included.whole then .whole else if included.subs.isEmpty then .none else .parts

def showsSub (visibility : Visibility) (included excluded : Mentions) (sub : Attribute) : Bool :=
  !sub.isHidden &&
    (sub.returned == .always || included.includesSub sub ||
      (visibility == .whole && sub.returned == .default && !excluded.includesSub sub))

mutual

/-- The shown part of a complex value, element by element. -/
def projectComplex (definition : Attribute) (shows : Attribute → Bool) : Json → Json
  | .array items => .array (projectItems definition shows items)
  | .object entries =>
    .object (Object.ofEntries (entries.filterMap fun entry => do
      let sub ← definition.sub? entry.1
      if shows sub && entry.2.isPresent then some (sub.name, entry.2) else none))
  | value => value

def projectItems (definition : Attribute) (shows : Attribute → Bool) : List Json → List Json
  | [] => []
  | item :: rest =>
    let projected := projectComplex definition shows item
    if projected.isPresent then projected :: projectItems definition shows rest
    else projectItems definition shows rest

end

namespace Projection

/-- The visible part of the value of an attribute. -/
def value? (projection : Projection) (member : Member) (definition : Attribute) (value : Json) :
    Option Json :=
  if definition.isHidden || !value.isPresent then none
  else
    let included := Mentions.ofSelected projection.included member definition
    let excluded := Mentions.ofSelected projection.excluded member definition
    let visible := visibility definition.returned projection.asks included excluded
    if visible = .none then none
    else if !definition.isComplex then some value
    else
      let projected := projectComplex definition (showsSub visible included excluded) value
      if projected.isPresent then some projected else none

/-- The visible entries of an object that holds attributes of a member, under their declared names.
-/
def entries (projection : Projection) (member : Member) (object : Object) : Object :=
  Object.ofEntries (object.filterMap fun entry => do
    let definition ← member.schema.find? entry.1
    let value ← projection.value? member definition entry.2
    return (definition.name, value))

/-- The visible form of one entry of a resource. `schemas` is always shown as it is. -/
def entry? (projection : Projection) (key : String) (value : Json) : Option (String × Json) :=
  if Text.sameName key "schemas" then some (key, value)
  else
    match projection.view.extensionFor? key with
    | some extension =>
      match value with
      | .object fields =>
        -- Of an extension of which nothing is shown not even the URN is.
        let shown := projection.entries extension fields
        if shown.isEmpty then none else some (extension.schema.id, .object shown)
      | _ => none
    | none => do
      let definition ← projection.view.base.find? key
      let shown ← projection.value? projection.view.baseMember definition value
      return (definition.name, shown)

end Projection

/-- What a client asks for and excludes, bound to a view. -/
def Selection.projection (selection : Selection) (view : View) : Projection where
  view
  asks := !selection.included.isEmpty
  included := Selected.ofReferences view selection.included
  excluded := Selected.ofReferences view selection.excluded

def project (selection : Selection) (view : View) (resource : Json) : Except ProjectionError Json :=
  if !selection.included.isEmpty && !selection.excluded.isEmpty then .error .ambiguous
  else
    match resource with
    | .object object =>
      let projection := selection.projection view
      .ok (.object (Object.ofEntries (object.filterMap fun entry => projection.entry? entry.1 entry.2)))
    | value => .ok value

/-! ### Reading selections -/

def splitCommas : List Char → List (List Char)
  | [] => [[]]
  | c :: rest =>
    match splitCommas rest with
    | [] => [[]]
    | part :: parts => if c = ',' then [] :: part :: parts else (c :: part) :: parts

/-- Reads a comma-separated list of references; blank entries are passed over. -/
def parseReferences (list : Option String) : Except ProjectionError (List Reference) :=
  match list with
  | none => .ok []
  | some list =>
    let names := ((splitCommas list.toList).map Text.trim).filter (!·.isEmpty)
    names.mapM fun name =>
      (Reference.parse (String.ofList name)).mapError (.invalidAttribute (String.ofList name))

def Selection.parse (attributes excludedAttributes : Option String) : Except ProjectionError Selection := do
  let included ← parseReferences attributes
  let excluded ← parseReferences excludedAttributes
  if !included.isEmpty && !excluded.isEmpty then throw .ambiguous
  return ⟨included, excluded⟩

end Scim
