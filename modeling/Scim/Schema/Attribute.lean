import Scim.Text.Ascii

/-!
# Attribute definitions

A schema declares attributes by name and characteristics; a complex attribute has attributes of its
own. Where a list declares a name twice, the first declaration is the one that counts.
-/

namespace Scim

inductive AttributeType where
  | string
  | boolean
  | decimal
  | integer
  | dateTime
  | binary
  | reference
  | complex
  deriving DecidableEq

def AttributeType.keyword : AttributeType → String
  | .string => "string"
  | .boolean => "boolean"
  | .decimal => "decimal"
  | .integer => "integer"
  | .dateTime => "dateTime"
  | .binary => "binary"
  | .reference => "reference"
  | .complex => "complex"

def AttributeType.title : AttributeType → String
  | .string => "String"
  | .boolean => "Boolean"
  | .decimal => "Decimal"
  | .integer => "Integer"
  | .dateTime => "DateTime"
  | .binary => "Binary"
  | .reference => "Reference"
  | .complex => "Complex"

/-- Whether and how clients may change an attribute. -/
inductive Mutability where
  | readOnly
  | readWrite
  /-- Set once, and never changed afterwards. -/
  | immutable
  /-- Changed by clients, and never shown to them. -/
  | writeOnly
  deriving DecidableEq

def Mutability.keyword : Mutability → String
  | .readOnly => "readOnly"
  | .readWrite => "readWrite"
  | .immutable => "immutable"
  | .writeOnly => "writeOnly"

/-- When an attribute is part of an answer. -/
inductive Returned where
  | always
  | never
  /-- Unless it is excluded. -/
  | default
  /-- Only if it is asked for. -/
  | request
  deriving DecidableEq

def Returned.keyword : Returned → String
  | .always => "always"
  | .never => "never"
  | .default => "default"
  | .request => "request"

/-- Among which resources a value must not occur twice. -/
inductive Uniqueness where
  | none
  | server
  | global
  deriving DecidableEq

def Uniqueness.keyword : Uniqueness → String
  | .none => "none"
  | .server => "server"
  | .global => "global"

structure Attribute where
  name : String
  type : AttributeType := .string
  multiValued : Bool := false
  required : Bool := false
  caseExact : Bool := false
  mutability : Mutability := .readWrite
  returned : Returned := .default
  uniqueness : Uniqueness := .none
  canonicalValues : List String := []
  subAttributes : List Attribute := []

namespace Attribute

mutual

/-- Equality of definitions is equality of all their characteristics. -/
def decEq : (left right : Attribute) → Decidable (left = right)
  | ⟨n, t, m, r, c, mu, re, u, cv, subs⟩, ⟨n', t', m', r', c', mu', re', u', cv', subs'⟩ =>
    match decEqList subs subs' with
    | isFalse differ => isFalse fun equal => differ (by injection equal)
    | isTrue equalSubs =>
      if same : n = n' ∧ t = t' ∧ m = m' ∧ r = r' ∧ c = c' ∧ mu = mu' ∧ re = re' ∧ u = u' ∧ cv = cv' then
        isTrue (by
          obtain ⟨rfl, rfl, rfl, rfl, rfl, rfl, rfl, rfl, rfl⟩ := same
          rw [equalSubs])
      else isFalse fun equal => same (by injection equal; simp [*])

def decEqList : (left right : List Attribute) → Decidable (left = right)
  | [], [] => isTrue rfl
  | [], _ :: _ => isFalse nofun
  | _ :: _, [] => isFalse nofun
  | left :: lefts, right :: rights =>
    match decEq left right, decEqList lefts rights with
    | isTrue head, isTrue tail => isTrue (by rw [head, tail])
    | isFalse head, _ => isFalse fun equal => head (by injection equal)
    | _, isFalse tail => isFalse fun equal => tail (by injection equal)

end

instance : DecidableEq Attribute := decEq

/-- A single-valued, optional attribute that clients may read and write. -/
def simple (name : String) (type : AttributeType) : Attribute := { name, type }

def isComplex (definition : Attribute) : Bool := definition.type == .complex

/-- The first attribute of a list with a given name, in any ASCII case. -/
def find? (attributes : List Attribute) (name : String) : Option Attribute :=
  attributes.find? fun definition => Text.sameName definition.name name

def sub? (definition : Attribute) (name : String) : Option Attribute :=
  find? definition.subAttributes name

end Attribute

end Scim
