import Scim.Reference
import Scim.Resource.Access
import Scim.Schema.Basic

/-!
# Views

A view is the schema of a kind of resource: a base schema, whose attributes stand at the top level
of the resource, and extensions, whose attributes stand in an object under the URN of the extension.
References are resolved against a view. A reference with a URN goes to the schema of that URN, any
other one to the first schema that declares what it names, the base before the extensions.

An extension of a view can be its base schema once more. Then it is one schema with one place, the
top level.
-/

namespace Scim

inductive Extension where
  | schema (schema : Schema)
  | base

inductive Place where
  | base
  | extension (index : Nat)
  deriving DecidableEq

structure Member where
  place : Place
  schema : Schema

structure View where
  base : Schema
  extensions : List Extension := []

structure Resolved where
  member : Member
  definition : Attribute
  sub : Option Attribute

inductive Resolution where
  | definition (resolved : Resolved)
  | extension (member : Member)

/-- The key of the object that holds the attributes of a member; the base has none. -/
def Member.key? (member : Member) : Option String :=
  match member.place with
  | .base => none
  | .extension _ => some member.schema.id

namespace Resolved

/-- The definition that the reference points at in the end. -/
def target (resolved : Resolved) : Attribute := resolved.sub.getD resolved.definition

/-- The reference with names in the case of their declaration. -/
def canonicalReference (resolved : Resolved) (reference : Reference) : Reference :=
  { reference with
    name := resolved.definition.name
    sub := resolved.sub.map Attribute.name }

/-- The object of a resource that may hold the attribute. -/
def container? (resolved : Resolved) (resource : Object) : Option Object :=
  match resolved.member.key? with
  | none => some resource
  | some urn => (resource.attribute? urn).bind Json.object?

def value? (resolved : Resolved) (resource : Object) : Option Json :=
  (resolved.container? resource).bind fun container => container.attribute? resolved.definition.name

end Resolved

namespace View

def ofSchemas (base : Schema) (extensions : List Schema) : View := ⟨base, extensions.map .schema⟩

/-- The extensions at their places, starting with the one at `index`. -/
def placed (base : Schema) (index : Nat) : List Extension → List Member
  | [] => []
  | .schema schema :: rest => ⟨.extension index, schema⟩ :: placed base (index + 1) rest
  | .base :: rest => ⟨.base, base⟩ :: placed base (index + 1) rest

def extensionMembers (view : View) : List Member := placed view.base 0 view.extensions

def baseMember (view : View) : Member := ⟨.base, view.base⟩

/-- All schemas of the view, the base first. -/
def members (view : View) : List Member := view.baseMember :: view.extensionMembers

/-- The schema with a given URN, in any ASCII case. -/
def memberFor? (view : View) (urn : String) : Option Member :=
  view.members.find? fun member => Text.sameName member.schema.id urn

/-- The extension whose URN is used as a key in a resource, in any ASCII case. -/
def extensionFor? (view : View) (key : String) : Option Member :=
  view.extensionMembers.find? fun member => Text.sameName member.schema.id key

/-- Looks the names of a reference up in one schema. -/
def resolveIn? (reference : Reference) (member : Member) : Option Resolved := do
  let definition ← member.schema.find? reference.name
  match reference.sub with
  | none => return ⟨member, definition, none⟩
  | some sub => return ⟨member, definition, some (← definition.sub? sub)⟩

/-- Resolves a reference that has to name an attribute. -/
def resolveAttribute? (view : View) (reference : Reference) : Option Resolved :=
  match reference.urn with
  | some urn => (view.memberFor? urn).bind (resolveIn? reference)
  | none => view.members.findSome? (resolveIn? reference)

/-- Resolves a reference. The URN of an extension stands for the whole extension. -/
def resolve? (view : View) (reference : Reference) : Option Resolution :=
  match reference.asSchemaUrn?.bind view.extensionFor? with
  | some extension => some (.extension extension)
  | none => (view.resolveAttribute? reference).map .definition

end View

end Scim
