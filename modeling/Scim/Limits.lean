import Scim.Json.Decode

/-!
# Limits

Filters and patch requests come from outside, so their size is bounded before any work is done on
them.
-/

namespace Scim

structure Limits where
  /-- In bytes; it also bounds the paths of patch operations. -/
  maxFilterLength : Nat := 8192
  /-- How deep parentheses and brackets may be nested in a filter. -/
  maxFilterDepth : Nat := 32
  maxPatchOperations : Nat := 1000
  deriving DecidableEq

namespace Limits

inductive Fault where
  | zeroFilterLength
  | zeroFilterDepth
  | zeroPatchOperations
  deriving DecidableEq

def Fault.message : Fault → String
  | .zeroFilterLength => "maxFilterLength must be greater than zero"
  | .zeroFilterDepth => "maxFilterDepth must be greater than zero"
  | .zeroPatchOperations => "maxPatchOperations must be greater than zero"

def validate (limits : Limits) : Except Fault Unit := do
  if limits.maxFilterLength = 0 then throw .zeroFilterLength
  if limits.maxFilterDepth = 0 then throw .zeroFilterDepth
  if limits.maxPatchOperations = 0 then throw .zeroPatchOperations

open Json in
def fields : List (RecordField Limits) :=
  [{ name := "maxFilterLength", store := fun document limits => do
      return { limits with maxFilterLength := ← decodeCount document } },
   { name := "maxFilterDepth", store := fun document limits => do
      return { limits with maxFilterDepth := ← decodeCount document } },
   { name := "maxPatchOperations", store := fun document limits => do
      return { limits with maxPatchOperations := ← decodeCount document } }]

def ofJson (value : Json) : Except Json.DecodeError Limits :=
  let document := Json.Document.ofJson value
  Json.decodeRecord .value document.nesting fields {} document

def toJson (limits : Limits) : Json :=
  .object
    [("maxFilterDepth", .number (.integer limits.maxFilterDepth)),
     ("maxFilterLength", .number (.integer limits.maxFilterLength)),
     ("maxPatchOperations", .number (.integer limits.maxPatchOperations))]

end Limits

end Scim
