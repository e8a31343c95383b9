import Scim.Error
import Scim.Patch.Apply
import Scim.Projection
import Scim.Schema.Codec

/-!
# Serving a request

The steps that a resource goes through on behalf of a client: it is patched, matched against a
filter, and projected. All input is checked in a fixed order, and the first fault ends the request.
-/

namespace Scim

/-- What a client sends along, all of it optional. -/
structure Exchange where
  schema : Option String := none
  path : Option String := none
  body : Option String := none
  filter : Option String := none
  attributes : Option String := none
  excludedAttributes : Option String := none

structure ExchangeResult where
  /-- Whether the patched resource satisfies the filter, if there is one. -/
  isMatch : Option Bool
  /-- What the client gets to see of the patched resource. -/
  resource : Json

def Exchange.patchResource (exchange : Exchange) (limits : Limits) (view : View) (resource : Json) :
    Except ScimError Json :=
  match exchange.body with
  | none => .ok resource
  | some body => do
    let request ← PatchRequest.ofText body
    match patch limits view request.operations resource with
    | ⟨changed, none⟩ => return changed
    | ⟨_, some error⟩ => throw (.patch error)

def Exchange.serve (exchange : Exchange) (limits : Limits) (view : View) (resource : Json) :
    Except ScimError ExchangeResult := do
  limits.validate.mapError .invalidLimits
  match exchange.schema with
  | some text => discard ((Schema.ofText text).mapError .schema)
  | none => pure ()
  match exchange.path with
  | some text => discard ((Reference.parse text).mapError (.invalidPath text))
  | none => pure ()
  let patched ← exchange.patchResource limits view resource
  let isMatch ← exchange.filter.mapM fun text => do
    let filter ← (Filter.parse limits text).mapError .filter
    return filter.isMatch view patched
  let selection ← (Selection.parse exchange.attributes exchange.excludedAttributes).mapError .projection
  let projected ← (project selection view patched).mapError .projection
  return ⟨isMatch, projected⟩

end Scim
