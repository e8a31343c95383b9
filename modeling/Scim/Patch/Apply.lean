import Scim.Filter.Matching
import Scim.Patch.Request
import Scim.Patch.ValueCheck

/-!
# Applying patch operations

The steps of an operation change a working copy in place, one after the other, and a step that fails
leaves behind what has been changed until then. An operation as a whole either changes the resource
or leaves it as it was: only the working copy of an operation that succeeded takes the place of the
resource. Operations of a request are applied in order; those before the first one that fails stay
applied.

Every write passes the same gates in the same order: the path is resolved, the value is checked
against the definition, and the mutability of the attribute is checked against what is stored.
Attributes of an extension live in an object under its URN, which appears with the first value
written into it and disappears with the last; `schemas` follows.
-/

namespace Scim

/-- A step that works on an object. A step that fails leaves behind what it has changed until then.
-/
abbrev PatchStep := EStateM PatchError Object

/-- What an operation does once its verb and its value are put together. -/
inductive Change where
  | add (value : Json)
  | replace (value : Json)
  | remove

namespace Change

/-- Replacing by `null`, or by nothing, is removing. -/
def ofOperation (verb : PatchVerb) (value : Option Json) (path : String) : Except PatchError Change :=
  match verb, value.filter (!·.isNull) with
  | .add, some value => .ok (.add value)
  | .add, none => .error (.invalidValue path .valueRequired)
  | .replace, some value => .ok (.replace value)
  | .replace, none | .remove, _ => .ok .remove

def value? : Change → Option Json
  | .add value | .replace value => some value
  | .remove => none

end Change

structure Target where
  /-- The path as it is reported. -/
  path : String
  /-- The key of the object that holds the attribute; none at the top level. -/
  container : Option String
  definition : Attribute
  filter : Option Filter
  sub : Option Attribute

namespace Target

/-- The sub-attribute that is meant: the one named behind a value filter, or else the one of the
reference. -/
def resolveSub (resolved : Resolved) (sub : Option String) (path : String) :
    Except PatchError (Option Attribute) :=
  match sub with
  | none => .ok resolved.sub
  | some name =>
    match resolved.definition.sub? name with
    | some sub => .ok (some sub)
    | none => .error (.invalidPath path (.noSubAttribute resolved.definition.name name))

def resolve (view : View) (reference : Reference) (filter : Option Filter) (sub : Option String)
    (path : String) : Except PatchError Target :=
  match view.resolveAttribute? reference with
  | none => .error (.invalidPath path .undefined)
  | some resolved => do
    let definition := resolved.definition
    let sub ← resolveSub resolved sub path
    if filter.isSome && !(definition.multiValued && definition.isComplex) then
      .error (.invalidPath path .filterNotApplicable)
    else .ok { path, container := resolved.member.key?, definition, filter, sub }

/-- Checks that nothing is added under a value filter, which selects what is there. -/
def checkFilter (target : Target) (change : Change) : Except PatchError Unit :=
  match target.filter, change with
  | some _, .add _ => .error (.invalidPath target.path .filterOnAdd)
  | _, _ => .ok ()

/-- Checks the value of a change against the definition it is written under. -/
def checkValue (target : Target) (change : Change) : Except PatchError Unit :=
  match change.value? with
  | none => .ok ()
  | some value =>
    match target.sub, target.filter with
    | some sub, _ => sub.check target.path true value
    | none, some _ => target.definition.check target.path false value
    | none, none =>
      if target.definition.multiValued then
        match change, value with
        | _, .array items => target.definition.checkItems target.path items
        | .add _, item => target.definition.check target.path false item
        | _, _ => .error (.invalidValue target.path .arrayRequired)
      else target.definition.check target.path false value

end Target

/-! ### Mutability -/

/-- Checks that an attribute may be written; `present` says whether it holds anything. -/
def checkMutable (definition : Attribute) (present : Bool) : Except PatchError Unit :=
  match definition.mutability with
  | .readOnly => .error (.mutability definition.name .readOnly)
  | .immutable => if present then .error (.mutability definition.name .immutable) else .ok ()
  | .readWrite | .writeOnly => .ok ()

mutual

/-- Whether a stored value, or an element of it, holds anything under a sub-attribute. -/
def Json.hasSub (sub : String) : Json → Bool
  | .array items => anyHasSub sub items
  | .object entries => Object.has entries sub
  | _ => false

def Json.anyHasSub (sub : String) : List Json → Bool
  | [] => false
  | item :: rest => Json.hasSub sub item || Json.anyHasSub sub rest

end

/-- Checks that all sub-attributes that an object names may be written. -/
def checkEntriesMutable (definition : Attribute) (present : Attribute → Bool) :
    Object → Except PatchError Unit
  | [] => .ok ()
  | (key, _) :: rest => do
    match definition.sub? key with
    | some sub => checkMutable sub (present sub)
    | none => pure ()
    checkEntriesMutable definition present rest

/-! ### Whole attributes -/

def addItems (collection : List Json) : List Json → List Json
  | [] => collection
  | item :: rest =>
    if collection.any (Json.same · item) then addItems collection rest
    else addItems (collection ++ [item]) rest

def storedElements : Option Json → List Json
  | some (.array items) => items
  | _ => []

/-- The collection that a stored value stands for. -/
def storedItems : Option Json → List Json
  | some (.array items) => items
  | some .null | none => []
  | some value => [value]

/-- Merges an object into a complex value, sub-attribute by sub-attribute; `null` clears one. -/
def mergeEntries (definition : Attribute) (current : Object) : Object → Object
  | [] => current
  | (key, value) :: rest =>
    let name := (definition.sub? key).elim key Attribute.name
    mergeEntries definition
      (if value.isNull then current.removeAttribute name else current.setAttribute name value) rest

def addedItems : Json → List Json
  | .array items => items
  | item => [item]

/-- Adds values to a collection; an attribute is not made for nothing. -/
def addToCollection (name : String) (value : Json) (container : Object) : Object :=
  -- The collection is taken out and put back under the name of its definition.
  let items := addItems (storedItems (container.slot? name)) (addedItems value)
  let container := container.removeAttribute name
  if items.isEmpty then container else container.setAttribute name (.array items)

/-- Puts a collection in the place of the one that is stored; a collection that holds nothing clears
the attribute. -/
def replaceCollection (name : String) (value : Json) (container : Object) : Object :=
  if value.isPresent then container.setAttribute name value else container.removeAttribute name

/-- Merges an object into the complex value that is stored under the name of its definition. -/
def mergeInto (definition : Attribute) (entries : Object) (container : Object) : Object :=
  let current := ((container.slot? definition.name).bind Json.object?).getD []
  let merged := mergeEntries definition current entries
  let container := container.removeAttribute definition.name
  if merged.holdsAny then container.setAttribute definition.name (.object merged) else container

def mergeComplex (target : Target) (value : Json) : PatchStep Unit := do
  match value with
  | .object entries =>
    let stored := (← get).attribute? target.definition.name
    let present := fun (sub : Attribute) => stored.any (Json.hasSub sub.name)
    ofExcept (checkEntriesMutable target.definition present entries)
    modify (mergeInto target.definition entries)
  | _ => throw (.invalidValue target.path .notObject)

def applyWhole (target : Target) (change : Change) : PatchStep Unit := do
  let definition := target.definition
  let name := definition.name
  ofExcept (checkMutable definition ((← get).has name))
  match change with
  | .remove => modify (·.removeAttribute name)
  | .add value =>
    if definition.multiValued then modify (addToCollection name value)
    else if definition.isComplex then mergeComplex target value
    else modify (·.setAttribute name value)
  | .replace value =>
    if definition.multiValued then modify (replaceCollection name value)
    else if definition.isComplex then mergeComplex target value
    else modify (·.setAttribute name value)

/-! ### Sub-attributes and elements -/

def changeSub (change : Change) (sub : Attribute) (element : Object) : Object :=
  match change.value? with
  | some value => element.setAttribute sub.name value
  | none => element.removeAttribute sub.name

/-- Writes or clears a sub-attribute of every element up to the first one that is no object. Also
returns whether there was none. -/
def changeSubOfAll (change : Change) (sub : Attribute) : List Json → List Json × Bool
  | [] => ([], true)
  | .object element :: rest =>
    let (others, complete) := changeSubOfAll change sub rest
    (.object (changeSub change sub element) :: others, complete)
  | items => (items, false)

/-- Puts a collection back where it came from; an attribute does not stay behind without elements.
-/
def storeItems (name : String) (items : List Json) (container : Object) : Object :=
  if items.isEmpty then container.removeAttribute name
  else container.replaceSlot name (.array items)

def applySubOfItems (target : Target) (sub : Attribute) (change : Change) : PatchStep Unit := do
  let name := target.definition.name
  let items := storedElements ((← get).slot? name)
  if items.isEmpty then
    if change.value?.isSome then throw (.noTarget target.path) else pure ()
  else
    let (changed, complete) := changeSubOfAll change sub items
    if complete then modify (storeItems name (changed.filter Json.isPresent))
    else
      -- The elements before the faulty one have been rewritten by now.
      modify (·.replaceSlot name (.array changed))
      throw (.invalidValue target.path .elementNotObject)

def ensureObject (name : String) (container : Object) : Object :=
  match container.attribute? name with
  | some (.object _) => container
  | _ => container.setAttribute name (.object [])

/-- Writes a sub-attribute of a single value, which is made if there is none. -/
def setSub (name : String) (sub : Attribute) (value : Json) (container : Object) : Object :=
  let container := ensureObject name container
  match container.slot? name with
  | some (.object parent) =>
    container.replaceSlot name (.object (Object.setAttribute parent sub.name value))
  | _ => container

/-- Clears a sub-attribute of a single value, and the value if nothing is left of it. -/
def clearSub (name : String) (sub : Attribute) (container : Object) : Object :=
  match container.slot? name with
  | some (.object parent) =>
    let rest := Object.removeAttribute parent sub.name
    if rest.holdsAny then container.replaceSlot name (.object rest) else container.removeAttribute name
  | _ => container

def changeSubOfValue (name : String) (sub : Attribute) (change : Change) (container : Object) : Object :=
  match change.value? with
  | some value => setSub name sub value container
  | none => clearSub name sub container

def applySub (target : Target) (sub : Attribute) (change : Change) : PatchStep Unit := do
  let name := target.definition.name
  let container ← get
  -- The attribute is checked first, and its mutability reported, whatever the sub-attribute allows.
  ofExcept (checkMutable target.definition (container.has name))
  ofExcept (checkMutable sub ((container.attribute? name).any (Json.hasSub sub.name)))
  if target.definition.multiValued then applySubOfItems target sub change
  else modify (changeSubOfValue name sub change)

def changeSelected (target : Target) (selects : Json → Bool) (change : Change) (items : List Json) :
    Except PatchError (List Json) := do
  let selected := items.filter selects
  match target.sub, change.value? with
  | none, some value =>
    -- The selected elements are replaced as a whole, and not merged.
    match value with
    | .object entries =>
      checkEntriesMutable target.definition (fun sub => Json.anyHasSub sub.name selected) entries
    | _ => pure ()
    return items.map fun item => if selects item then value else item
  | none, none => return items.filter (!selects ·)
  | some sub, _ =>
    checkMutable sub (Json.anyHasSub sub.name selected)
    let changed := items.map fun item =>
      match item with
      | .object element => if selects item then .object (changeSub change sub element) else item
      | _ => item
    -- Elements of which nothing is left are dropped, selected or not.
    return changed.filter Json.isPresent

def applyFiltered (target : Target) (filter : Filter) (change : Change) : PatchStep Unit := do
  let definition := target.definition
  let name := definition.name
  ofExcept (checkMutable definition ((← get).has name))
  let items := storedElements ((← get).slot? name)
  let selects := filter.matchesElement definition
  if items.any selects then
    let changed ← ofExcept (changeSelected target selects change items)
    modify (storeItems name changed)
  else throw (.noTarget target.path)

/-! ### Extensions -/

def changeSchemas (resource : Object) (change : List Json → List Json) : Object :=
  match resource.slot? "schemas" with
  | some (.array urns) => resource.replaceSlot "schemas" (.array (change urns))
  | _ => resource

def isUrn (urn : String) (entry : Json) : Bool := entry.string?.any (Text.sameName · urn)

def registerExtension (resource : Object) (urn : String) : Object :=
  changeSchemas resource fun urns => if urns.any (isUrn urn) then urns else urns ++ [.string urn]

def unregisterExtension (resource : Object) (urn : String) : Object :=
  changeSchemas resource fun urns => urns.filter (!isUrn urn ·)

/-- Drops the object of an extension that holds nothing. -/
def tidyExtension (resource : Object) (urn : String) : Object :=
  match resource.attribute? urn with
  | some value =>
    if value.isPresent then resource else unregisterExtension (resource.removeAttribute urn) urn
  | none => resource

/-- Applies a step to the object in a slot, which keeps what the step has changed, whether it fails
or not. -/
def inSlot (urn : String) (step : PatchStep Unit) : PatchStep Unit := fun resource =>
  match resource.slot? urn with
  | some (.object container) =>
    match step container with
    | .ok () changed => .ok () (resource.replaceSlot urn (.object changed))
    | .error error changed => .error error (resource.replaceSlot urn (.object changed))
  | _ => .error (.invalidValue urn .extensionNotObject) resource

def createExtension (urn : String) (resource : Object) : Object :=
  registerExtension (resource.setAttribute urn (.object [])) urn

/-- Applies a step to the object that holds the attributes of an extension. The object is made if
`create` is set; otherwise `absent` is done where there is none. -/
def inExtension (urn : String) (create : Bool) (absent step : PatchStep Unit) : PatchStep Unit := do
  let missing := ((← get).attribute? urn).all Json.isNull
  if missing && !create then absent
  else
    modify fun resource => if missing then createExtension urn resource else resource
    inSlot urn step
    -- The step may have cleared the last value, or written none into a new object.
    modify (tidyExtension · urn)

/-! ### Operations -/

def applyInContainer (target : Target) (change : Change) : PatchStep Unit :=
  match target.filter, target.sub with
  | none, none => applyWhole target change
  | none, some sub => applySub target sub change
  | some filter, _ => applyFiltered target filter change

def applyTarget (target : Target) (change : Change) : PatchStep Unit := do
  ofExcept (target.checkFilter change)
  ofExcept (target.checkValue change)
  match target.container with
  | none => applyInContainer target change
  | some urn =>
    -- Without an object there is nothing to clear, and nothing that a filter could select.
    let absent : PatchStep Unit :=
      if target.filter.isSome then throw (.noTarget target.path) else pure ()
    inExtension urn change.value?.isSome absent (applyInContainer target change)

/-- Applies one entry of an object as if its key were the path `path`. An entry that adds `null`
adds nothing. -/
def applyEntry (view : View) (verb : PatchVerb) (path : String) (value : Json) : PatchStep Unit := do
  if verb = .add ∧ value.isNull then pure ()
  else
    match Reference.parse path with
    | .error fault => throw (.invalidPath path (.invalidReference fault))
    | .ok reference =>
      let target ← ofExcept (Target.resolve view reference none none path)
      let change ← ofExcept (Change.ofOperation verb (some value) path)
      applyTarget target change

def applyExtensionEntries (view : View) (verb : PatchVerb) (urn : String) (entries : Object) :
    PatchStep Unit :=
  entries.forM fun (key, value) => applyEntry view verb (urn ++ ":" ++ key) value

/-- Applies one entry of an object to the resource. An entry under the URN of an extension holds the
entries for that extension; `schemas` is maintained and not written. -/
def applyTopEntry (view : View) (verb : PatchVerb) (key : String) (value : Json) : PatchStep Unit :=
  if Text.sameName key "schemas" then pure ()
  else
    match view.extensionFor? key, value with
    | some extension, .object entries => applyExtensionEntries view verb extension.schema.id entries
    | some _, _ => throw (.invalidValue key .extensionNotObject)
    | none, _ => applyEntry view verb key value

def applyEntries (view : View) (verb : PatchVerb) (entries : Object) : PatchStep Unit :=
  entries.forM fun (key, value) => applyTopEntry view verb key value

/-- Checks that none of the attributes that an extension object holds is kept from being removed. -/
def checkRemovable (stored : Object) : List Attribute → Except PatchError Unit
  | [] => .ok ()
  | definition :: rest => do
    if stored.has definition.name then checkMutable definition true else .ok ()
    checkRemovable stored rest

def removeExtension (extension : Schema) : PatchStep Unit := do
  let urn := extension.id
  -- All attributes are checked before the object is dropped.
  ofExcept
    (match (← get).attribute? urn with
    | some (.object stored) => checkRemovable stored extension.attributes
    | _ => .ok ())
  modify fun resource =>
    if (resource.spelling? urn).isSome then unregisterExtension (resource.removeAttribute urn) urn
    else resource

def applyExtension (view : View) (verb : PatchVerb) (extension : Schema) (value : Option Json) :
    PatchStep Unit := do
  let urn := extension.id
  let change ← ofExcept (Change.ofOperation verb value urn)
  match change.value? with
  | some (.object entries) => applyExtensionEntries view verb urn entries
  | some _ => throw (.invalidValue urn .extensionNotObject)
  | none => removeExtension extension

def PatchPath.wholeExtension? (path : PatchPath) (view : View) : Option Schema :=
  match path.filter, view.resolve? path.reference with
  | none, some (.extension extension) => some extension.schema
  | _, _ => none

namespace PatchOperation

def apply (operation : PatchOperation) (view : View) : PatchStep Unit := do
  match operation.path, operation.value with
  | none, value =>
    if operation.verb = .remove then throw (.invalidPath "" .pathRequired)
    else
      match value with
      | some (.object entries) => applyEntries view operation.verb entries
      | _ => throw (.invalidValue "" (.objectRequired operation.verb))
  | some path, value =>
    match path.wholeExtension? view with
    | some extension => applyExtension view operation.verb extension value
    | none =>
      let target ← ofExcept (Target.resolve view path.reference path.filter path.sub path.text)
      let change ← ofExcept (Change.ofOperation operation.verb value target.path)
      applyTarget target change

/-- Applies one operation to a working copy of a value, which has to be an object. -/
def applyToValue (operation : PatchOperation) (view : View) : EStateM PatchError Json Unit
  | .object object =>
    match operation.apply view object with
    | .ok () changed => .ok () (.object changed)
    | .error error changed => .error error (.object changed)
  | value => .error (.invalidValue "" .resourceNotObject) value

end PatchOperation

/-- What became of a resource and a list of operations: the resource with all operations applied
that came before the first failure, and that failure. -/
structure PatchOutcome where
  resource : Json
  error : Option PatchError

namespace PatchOutcome

/-- Applies operations one after the other until one fails. Each of them gets a working copy, which
takes the place of the resource if the operation succeeds and is dropped if it fails. -/
def ofOperations (view : View) (resource : Json) : List PatchOperation → PatchOutcome
  | [] => ⟨resource, none⟩
  | operation :: rest =>
    match operation.applyToValue view resource with
    | .ok () working => ofOperations view working rest
    | .error error _ => ⟨resource, some error⟩

end PatchOutcome

/-- Applies the operations of a request, unless there are too many of them. -/
def patch (limits : Limits) (view : View) (operations : List PatchOperation) (resource : Json) :
    PatchOutcome :=
  if limits.maxPatchOperations < operations.length then
    ⟨resource, some (.tooManyOperations operations.length limits.maxPatchOperations)⟩
  else PatchOutcome.ofOperations view resource operations

def patched (limits : Limits) (view : View) (operations : List PatchOperation) (resource : Json) :
    Except PatchError Json :=
  match patch limits view operations resource with
  | ⟨changed, none⟩ => .ok changed
  | ⟨_, some error⟩ => .error error

end Scim
