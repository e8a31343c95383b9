import Scim.Schema.Codec

/-!
# Indices over names

In memory every list of attributes comes with an index that leads from a name to the attribute without
a search. The index is no part of a document: whatever sets a list, be it the reader of a document or a
step of the builder, makes its index anew.
-/

namespace Scim

/-- Positions in a list, by the folded names of what stands there. -/
structure NameIndex where
  positions : List (List Char × Nat) := []

namespace NameIndex

def position? (index : NameIndex) (name : String) : Option Nat :=
  index.positions.lookup (Text.fold name)

/-- Notes the position of a name, unless the name has one already. -/
def note (index : NameIndex) (name : String) (position : Nat) : NameIndex :=
  match index.position? name with
  | some _ => index
  | none => ⟨(Text.fold name, position) :: index.positions⟩

/-- Notes the names that stand from a position onwards. -/
def noteAll (index : NameIndex) (position : Nat) : List String → NameIndex
  | [] => index
  | name :: rest => noteAll (index.note name position) (position + 1) rest

def build (names : List String) : NameIndex := noteAll {} 0 names

/-- The element of a list that an index over the list leads to. -/
def get? {α : Type} (index : NameIndex) (elements : List α) (name : String) : Option α :=
  (index.position? name).bind fun position => elements[position]?

end NameIndex

/-- The index over the sub-attributes of an attribute, and the indices that these have themselves. -/
structure IndexTree where
  index : NameIndex
  inner : List IndexTree

namespace IndexTree

mutual

/-- The indices that an attribute has when it is read from a document. -/
def ofAttribute : Attribute → IndexTree
  | ⟨_, _, _, _, _, _, _, _, _, subAttributes⟩ =>
    ⟨.build (subAttributes.map (·.name)), ofAttributes subAttributes⟩

def ofAttributes : List Attribute → List IndexTree
  | [] => []
  | definition :: rest => ofAttribute definition :: ofAttributes rest

end

end IndexTree

/-! ### Attributes -/

/-- A characteristic of an attribute that has nothing to do with its index. -/
inductive Characteristic where
  | multiValued (value : Bool)
  | required (value : Bool)
  | caseExact (value : Bool)
  | mutability (value : Mutability)
  | returned (value : Returned)
  | uniqueness (value : Uniqueness)
  | canonicalValues (values : List String)

def Characteristic.set (definition : Attribute) : Characteristic → Attribute
  | .multiValued value => { definition with multiValued := value }
  | .required value => { definition with required := value }
  | .caseExact value => { definition with caseExact := value }
  | .mutability value => { definition with mutability := value }
  | .returned value => { definition with returned := value }
  | .uniqueness value => { definition with uniqueness := value }
  | .canonicalValues values => { definition with canonicalValues := values }

/-- An attribute with its indices. -/
structure IndexedAttribute where
  definition : Attribute
  tree : IndexTree

namespace IndexedAttribute

def name (indexed : IndexedAttribute) : String := indexed.definition.name

def subAttributes (indexed : IndexedAttribute) : List IndexedAttribute :=
  indexed.definition.subAttributes.zipWith mk indexed.tree.inner

/-- The sub-attribute that a name leads to. -/
def get? (indexed : IndexedAttribute) (name : String) : Option IndexedAttribute :=
  indexed.tree.index.get? indexed.subAttributes name

def ofAttribute (definition : Attribute) : IndexedAttribute := ⟨definition, .ofAttribute definition⟩

def simple (name : String) (type : AttributeType) : IndexedAttribute := ⟨.simple name type, ⟨{}, []⟩⟩

def set (indexed : IndexedAttribute) (characteristic : Characteristic) : IndexedAttribute :=
  { indexed with definition := characteristic.set indexed.definition }

/-- Sets the sub-attributes, in the place of any that were there before. -/
def withSubAttributes (indexed : IndexedAttribute) (subs : List IndexedAttribute) :
    IndexedAttribute where
  definition := { indexed.definition with subAttributes := subs.map (·.definition) }
  tree := ⟨.build (subs.map (·.name)), subs.map (·.tree)⟩

end IndexedAttribute

/-! ### Schemas -/

/-- A schema with its indices. -/
structure IndexedSchema where
  schema : Schema
  index : NameIndex
  inner : List IndexTree

namespace IndexedSchema

def attributes (indexed : IndexedSchema) : List IndexedAttribute :=
  indexed.schema.attributes.zipWith .mk indexed.inner

/-- The attribute that a name leads to. -/
def get? (indexed : IndexedSchema) (name : String) : Option IndexedAttribute :=
  indexed.index.get? indexed.attributes name

def new (id name description : String) (attributes : List IndexedAttribute) : IndexedSchema where
  schema := { id, name, description, attributes := attributes.map (·.definition) }
  index := .build (attributes.map (·.name))
  inner := attributes.map (·.tree)

/-- Describes a schema in other words, under a URN that may be another one. -/
def describe (indexed : IndexedSchema) (id name description : String) : IndexedSchema :=
  { indexed with schema := { indexed.schema with id, name, description } }

def ofSchema (schema : Schema) : IndexedSchema :=
  new schema.id schema.name schema.description (schema.attributes.map .ofAttribute)

def ofJson (value : Json) : Except Json.DecodeError IndexedSchema := (Schema.ofJson value).map ofSchema

def ofText (text : String) : Except SchemaError IndexedSchema := (Schema.ofText text).map ofSchema

def toJson (indexed : IndexedSchema) : Json := indexed.schema.toJson

end IndexedSchema

end Scim
