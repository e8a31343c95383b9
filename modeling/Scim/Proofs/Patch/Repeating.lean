import Scim.Proofs.Patch.Listing
import Scim.Proofs.Patch.Rewriting

/-!
# Repeating an operation

An operation on an attribute that succeeds twice in a row changes nothing the second time. Where the
object of an extension stays, this is so because the change to the attribute leaves it alone. Where
the object has been dropped, since nothing was left in it, a second change that writes makes a new
one; what it puts there holds no more than what was dropped, so that the new object is dropped as well
and its entry in `schemas` with it.
-/

namespace Scim

open Object

variable {target : Target} {change : Change} {urn : String}
  {resource container before between after changed made : Object}

/-! ### Values written into an empty object -/

/-- What is added to no collection is in every other collection that it is added to. -/
theorem isPresent_addedValue (stored : Option Json) {value made : Json}
    (isMade : addedValue value none = some made) (present : made.isPresent = true) :
    ∃ left, addedValue value stored = some left ∧ left.isPresent = true := by
  simp only [addedValue, Option.ite_none_left_eq_some, Option.some.injEq] at isMade
  obtain ⟨_, rfl⟩ := isMade
  obtain ⟨item, member, presentItem⟩ := Json.isPresent_array_iff.mp present
  -- The item has been added, so the other collection has an equal one, be it an older one.
  have isAdded := (mem_addItems member).resolve_left List.not_mem_nil
  obtain ⟨other, inItems, same⟩ := exists_same_mem_addItems (storedItems stored) isAdded
  have presentOther := (Json.isPresent_eq_of_same other item same).trans presentItem
  have notEmpty : ¬(addItems (storedItems stored) (addedItems value)).isEmpty = true :=
    fun empty => List.ne_nil_of_mem inItems (List.isEmpty_iff.mp empty)
  exact ⟨_, if_neg notEmpty, Json.isPresent_array_iff.mpr ⟨other, inItems, presentOther⟩⟩

theorem isPresent_singleValue {definition : Attribute} {stored : Option Json}
    (regular : (storedObject stored).Regular) {value made : Json}
    (isMade : definition.singleValue value none = some made) (present : made.isPresent = true) :
    ∃ left, definition.singleValue value stored = some left ∧ left.isPresent = true := by
  unfold Attribute.singleValue at isMade ⊢
  split at isMade
  next complex =>
    rw [if_pos complex]
    cases value with
    | object entries =>
      simp only [mergedValue, Option.ite_none_right_eq_some] at isMade ⊢
      have holds := holdsAny_mergeEntries regular isMade.1
      exact ⟨_, ⟨holds, rfl⟩, holds⟩
    | _ => cases isMade
  next simple =>
    rw [if_neg simple]
    exact ⟨made, isMade, present⟩

/-- If a change to an attribute as a whole makes something of nothing, it leaves something of every
value. -/
theorem isPresent_wholeValue {stored : Option Json} (regular : (storedObject stored).Regular)
    {made : Json} (isMade : target.wholeValue change none = some made) (present : made.isPresent = true) :
    ∃ left, target.wholeValue change stored = some left ∧ left.isPresent = true := by
  cases change with
  | remove => cases isMade
  | add written =>
    simp only [Target.wholeValue] at isMade ⊢
    split at isMade
    next many =>
      rw [if_pos many]
      exact isPresent_addedValue stored isMade present
    next one =>
      rw [if_neg one]
      exact isPresent_singleValue regular isMade present
  | replace written =>
    simp only [Target.wholeValue] at isMade ⊢
    split at isMade
    next many =>
      -- A collection is replaced by the same one, whatever there is.
      rw [if_pos many]
      exact ⟨made, isMade, present⟩
    next one =>
      rw [if_neg one]
      exact isPresent_singleValue regular isMade present

/-- An object that is made of an empty one by writes under one name holds something under it, or
nothing at all. -/
theorem has_of_edits_nil {name : String} (edits : Edits name [] made) (holds : made.holdsAny = true) :
    ∃ entry, made.named? name = some entry ∧ entry.2.isPresent = true := by
  obtain ⟨other, entry, found, present⟩ := (regular_nil.of_edits edits).holdsAny_iff.mp holds
  by_cases same : Text.fold other = Text.fold name
  · exact ⟨entry, (named?_congr made same).symm.trans found, present⟩
  · rw [regular_nil.named?_of_edits edits same] at found
    cases found

theorem holdsAny_of_named? {name : String} (regular : changed.Regular) {entry : String × Json}
    (found : changed.named? name = some entry) (present : entry.2.isPresent = true) :
    changed.holdsAny = true :=
  regular.holdsAny_iff.mpr ⟨name, entry, found, present⟩

/-- A sub-attribute that is written into nothing stands alone in an object of its own. -/
theorem setSub_nil (name : String) (sub : Attribute) (value : Json) :
    setSub name sub value [] = [(name, .object [(sub.name, value)])] := by
  have made : ensureObject name [] = [(name, .object [])] := rfl
  have stored : Object.attribute? [(name, .object [])] name = some (.object []) :=
    attribute?_setAttribute [] name (.object [])
  have spelling : Object.spelling? [(name, .object [])] name = some name := by
    simp [Object.spelling?, Text.sameName]
  have slot : Object.slot? [(name, .object [])] name = some (.object []) :=
    (slot?_eq_attribute? (regular_nil.setAttribute name (.object [])).unambiguous).trans stored
  simp only [setSub, made, slot]
  rw [Object.replaceSlot, spelling]
  exact if_pos rfl

theorem holdsAny_setSub {name : String} {sub : Attribute} {value : Json}
    (unambiguous : container.Unambiguous) (holds : (setSub name sub value []).holdsAny = true) :
    (setSub name sub value container).holdsAny = true := by
  have present : value.isPresent = true := by
    rw [setSub_nil] at holds
    simpa [Object.holdsAny, Json.isPresent, Json.anyEntryPresent] using holds
  have holdsSub (parent : Object) : (parent.setAttribute sub.name value).has sub.name = true := by
    rw [Object.has, attribute?_setAttribute]
    exact present
  have holdsValue : Object.has (setSub name sub value container) name = true := by
    rw [Object.has, attribute?_setSub name unambiguous]
    exact holdsAny_of_has (holdsSub _)
  exact holdsAny_of_has holdsValue

/-- A change that writes leaves something of an object if it makes something of an empty one. -/
theorem holdsAny_of_applyInContainer (keyed : Json.IsKeyed (.object container))
    (written : change.value?.isSome = true)
    (first : applyInContainer target change container = .ok () changed)
    (second : applyInContainer target change [] = .ok () made) (holds : made.holdsAny = true) :
    changed.holdsAny = true := by
  have regular := regular_of_isKeyed keyed
  obtain ⟨_, rewrites⟩ := applyInContainer_eq_ok first
  obtain ⟨_, again⟩ := applyInContainer_eq_ok second
  have regularChanged := regular.of_edits rewrites.edits
  have noElements : storedElements (Object.slot? [] target.definition.name) = [] := rfl
  obtain ⟨entry, found, present⟩ := has_of_edits_nil again.edits holds
  cases filtered : target.filter with
  | some filter =>
    -- There is nothing that could be selected in an empty object.
    have matching := (again.of_filter filtered).1
    rw [noElements] at matching
    cases matching
  | none =>
    cases inner : target.sub with
    | none =>
      rw [again.named?_of_whole regular_nil filtered inner] at found
      obtain ⟨value, left, rfl⟩ := Option.map_eq_some_iff.mp found
      obtain ⟨other, leftOther, presentOther⟩ :=
        isPresent_wholeValue (regular_storedObject keyed target.definition.name) left present
      have entryOther := rewrites.named?_of_whole regular filtered inner
      rw [leftOther] at entryOther
      exact holdsAny_of_named? regularChanged entryOther presentOther
    | some sub =>
      cases many : target.definition.multiValued with
      | true =>
        rcases again.of_items inner filtered many with ⟨_, nothing, _⟩ | ⟨_, someItems, _⟩
        · rw [nothing] at written
          cases written
        · -- A sub-attribute is not written where there are no elements.
          exact absurd noElements someItems
      | false =>
        obtain ⟨value, isValue⟩ := Option.isSome_iff_exists.mp written
        have isMade : made = setSub target.definition.name sub value [] := by
          rw [again.of_sub inner filtered many, changeSubOfValue, isValue]
        have isChanged : changed = setSub target.definition.name sub value container := by
          rw [rewrites.of_sub inner filtered many, changeSubOfValue, isValue]
        rw [isMade] at holds
        exact isChanged ▸ holdsAny_setSub regular.unambiguous holds

/-! ### The object of an extension that is dropped again -/

section Extension

theorem unregistered_registered {urns : List Json} (unlisted : ¬ListsUrn urns urn) :
    unregistered urn (registered urn urns) = urns := by
  have notListed : ∀ entry ∈ urns, isUrn urn entry = false := fun entry member =>
    Bool.eq_false_iff.mpr fun isEntry => unlisted (listsUrn_iff.mpr ⟨entry, member, isEntry⟩)
  have new : ¬urns.any (isUrn urn) = true := fun listed =>
    unlisted (listsUrn_iff.mpr (List.any_eq_true.mp listed))
  have itself : isUrn urn (.string urn) = true := isUrn_iff.mpr ⟨urn, rfl, rfl⟩
  rw [registered, if_neg new, unregistered, List.filter_append,
    List.filter_eq_self.mpr fun entry member => by simp [notListed entry member]]
  simp [itself]

/-- What becomes of the value under `schemas` if the list there is changed. -/
def changedList (change : List Json → List Json) : Json → Json
  | .array urns => .array (change urns)
  | value => value

theorem named?_changeSchemas (regular : resource.Regular) (change : List Json → List Json)
    (name : String) :
    Object.named? (changeSchemas resource change) name =
      if Text.fold name = Text.fold "schemas" then
        (resource.named? "schemas").map fun entry => (entry.1, changedList change entry.2)
      else resource.named? name := by
  by_cases isSchemas : Text.fold name = Text.fold "schemas"
  · rw [if_pos isSchemas, named?_congr _ isSchemas]
    unfold changeSchemas
    split
    next urns listed =>
      rw [regular.slot?_eq_named?, Option.map_eq_some_iff] at listed
      obtain ⟨entry, found, isList⟩ := listed
      rw [regular.named?_replaceSlot, if_pos rfl, found]
      simp [changedList, isList]
    next noList =>
      cases found : resource.named? "schemas" with
      | none => rfl
      | some entry =>
        obtain ⟨key, value⟩ := entry
        cases value with
        | array urns => exact absurd (by rw [regular.slot?_eq_named?, found]; rfl) (noList urns)
        | _ => rfl
  · rw [if_neg isSchemas]
    exact regular.named?_of_edits (changeSchemas_edits resource change) isSchemas

/-- A new extension is put on the list of extensions; under its own name there is its object. -/
theorem named?_createExtension (regular : resource.Regular) {name : String}
    (apart : Text.fold name ≠ Text.fold urn) :
    Object.named? (createExtension urn resource) name =
      if Text.fold name = Text.fold "schemas" then
        (resource.named? "schemas").map fun entry => (entry.1, changedList (registered urn) entry.2)
      else resource.named? name := by
  have set := regular.setAttribute urn (.object [])
  rw [createExtension, registerExtension, named?_changeSchemas set]
  split
  next isSchemas =>
    rw [regular.named?_setAttribute, if_neg fun same => apart (isSchemas.trans same)]
  · rw [regular.named?_setAttribute, if_neg apart]

/-- An extension is dropped and taken off the list. -/
theorem named?_dropExtension (regular : resource.Regular) (name : String) :
    Object.named? (unregisterExtension (resource.removeAttribute urn) urn) name =
      if Text.fold name = Text.fold urn then none
      else if Text.fold name = Text.fold "schemas" then
        (resource.named? "schemas").map fun entry => (entry.1, changedList (unregistered urn) entry.2)
      else resource.named? name := by
  rw [unregisterExtension, named?_changeSchemas (regular.removeAttribute urn),
    regular.named?_removeAttribute, regular.named?_removeAttribute]
  by_cases isItself : Text.fold name = Text.fold urn
  · -- Nothing is left under the URN, even if it is the name of the list.
    rw [if_pos isItself, if_pos isItself]
    split
    next isSchemas =>
      rw [if_pos (isSchemas.symm.trans isItself)]
      rfl
    · rfl
  · rw [if_neg isItself, if_neg isItself]
    split
    next isSchemas => rw [if_neg fun same => isItself (isSchemas.trans same)]
    · rfl

theorem regular_createExtension (regular : resource.Regular) : (createExtension urn resource).Regular :=
  (regular.setAttribute urn (.object [])).of_edits (changeSchemas_edits _ _)

theorem regular_dropExtension (regular : resource.Regular) :
    Object.Regular (unregisterExtension (resource.removeAttribute urn) urn) :=
  (regular.removeAttribute urn).of_edits (changeSchemas_edits _ _)

/-- A resource without an extension: there is nothing under its URN, and the URN is not on the list. -/
structure LacksExtension (urn : String) (resource : Object) : Prop where
  absent : resource.named? urn = none
  unlisted : ∀ key urns, resource.named? "schemas" = some (key, .array urns) → ¬ListsUrn urns urn

/-- Once an extension has been dropped, the resource is without it. -/
theorem lacksExtension_dropExtension (regular : resource.Regular) :
    LacksExtension urn (unregisterExtension (resource.removeAttribute urn) urn) := by
  constructor
  · rw [named?_dropExtension regular, if_pos rfl]
  · intro key urns listed
    rw [named?_dropExtension regular, if_pos rfl] at listed
    split at listed
    · cases listed
    · obtain ⟨⟨_, value⟩, _, isList⟩ := Option.map_eq_some_iff.mp listed
      cases value with
      | array old =>
        cases isList
        exact fun lists => (listsUrn_unregistered.mp lists).1 rfl
      | _ => cases isList

/-- An extension that is made and dropped leaves a resource that was without it as it was. -/
theorem dropExtension_createExtension (regular : resource.Regular) (lacks : LacksExtension urn resource) :
    unregisterExtension (Object.removeAttribute (createExtension urn resource) urn) urn = resource := by
  have created : (createExtension urn resource).Regular := regular_createExtension regular
  apply (regular_dropExtension created).ext regular
  intro name
  rw [named?_dropExtension created]
  split
  next isItself => rw [named?_congr resource isItself, lacks.absent]
  next apart =>
    split
    next isSchemas =>
      have notItself : Text.fold "schemas" ≠ Text.fold urn := fun same => apart (isSchemas.trans same)
      rw [named?_createExtension regular notItself, if_pos rfl, named?_congr resource isSchemas,
        Option.map_map]
      -- What is put on the list is taken off it again.
      cases listed : resource.named? "schemas" with
      | none => rfl
      | some entry =>
        obtain ⟨key, value⟩ := entry
        cases value with
        | array urns =>
          have same := unregistered_registered (lacks.unlisted key urns listed)
          exact congrArg (fun list => some (key, Json.array list)) same
        | _ => rfl
    next notSchemas => rw [named?_createExtension regular apart, if_neg notSchemas]

/-- The object that a step has left is put in the place of the one that it has found, or dropped. -/
theorem tidyExtension_replaceSlot (regular : resource.Regular)
    (stored : resource.attribute? urn = some (.object container)) (changed : Object) :
    tidyExtension (resource.replaceSlot urn (.object changed)) urn =
      if changed.holdsAny then resource.replaceSlot urn (.object changed)
      else unregisterExtension (resource.removeAttribute urn) urn := by
  have put : Object.attribute? (resource.replaceSlot urn (.object changed)) urn =
      some (.object changed) := attribute?_replaceSlot_self regular.unambiguous stored
  rw [tidyExtension, put, regular.removeAttribute_replaceSlot]
  rfl

/-- A step in an extension whose object is there changes that object, or drops it. -/
theorem inExtension_of_there {create : Bool} {absent step : PatchStep Unit} (regular : before.Regular)
    (there : before.attribute? urn = some (.object container))
    (done : inExtension urn create absent step before = .ok () after) :
    ∃ changed, step container = .ok () changed ∧
      after = if changed.holdsAny then before.replaceSlot urn (.object changed)
        else unregisterExtension (before.removeAttribute urn) urn := by
  have notMissing : ¬(before.attribute? urn).all Json.isNull = true := by
    rw [there]
    exact Bool.false_ne_true
  rcases inExtension_eq_ok done with
    ⟨missing, _, _⟩ | ⟨ready, found, changed, isReady, _, slot, stepped, rfl⟩
  · exact absurd missing notMissing
  · rw [if_neg notMissing] at isReady
    subst isReady
    rw [slot?_eq_attribute? regular.unambiguous, there] at slot
    cases slot
    exact ⟨changed, stepped, tidyExtension_replaceSlot regular there changed⟩

/-- Where an extension is missing, a step makes its object, and drops it again if there is nothing in
it. -/
theorem inExtension_of_lacks {create : Bool} {absent step : PatchStep Unit} (regular : before.Regular)
    (lacks : LacksExtension urn before)
    (done : inExtension urn create absent step before = .ok () after) :
    create = false ∧ absent before = .ok () after ∨
      create = true ∧ ∃ made, step [] = .ok () made ∧
        after = if made.holdsAny then (createExtension urn before).replaceSlot urn (.object made)
          else before := by
  have missing : (before.attribute? urn).all Json.isNull = true := by
    rw [regular.attribute?_eq_named?, lacks.absent]
    rfl
  rcases inExtension_eq_ok done with
    ⟨_, notMade, skipped⟩ | ⟨ready, found, made, isReady, creates, slot, stepped, rfl⟩
  · exact .inl ⟨notMade, skipped⟩
  · rw [if_pos missing] at isReady
    subst isReady
    have created : (createExtension urn before).Regular := regular_createExtension regular
    have stored := (createExtension_spec urn regular.unambiguous).2
    rw [slot?_eq_attribute? created.unambiguous, stored] at slot
    cases slot
    refine .inr ⟨creates missing, made, stepped, ?_⟩
    rw [tidyExtension_replaceSlot created stored, dropExtension_createExtension regular lacks]

/-- **A step that is taken twice in an extension** leaves the resource that it has left the first time,
if a second step changes nothing in what the first one has left, and if a step that makes something of
an empty object leaves something of every other. -/
theorem inExtension_again {create : Bool} {absent step : PatchStep Unit}
    (keyed : Json.IsKeyed (.object before))
    (settles : ∀ {container changed again : Object}, Json.IsKeyed (.object container) →
      step container = .ok () changed → step changed = .ok () again → again = changed)
    (lasts : ∀ {container changed made : Object}, create = true → Json.IsKeyed (.object container) →
      step container = .ok () changed → step [] = .ok () made → made.holdsAny = true →
      changed.holdsAny = true)
    (idle : ∀ {resource left : Object}, absent resource = .ok () left → left = resource)
    (first : inExtension urn create absent step before = .ok () between)
    (second : inExtension urn create absent step between = .ok () after) : after = between := by
  rcases inExtension_eq_ok first with
    ⟨_, _, skipped⟩ | ⟨ready, container, changed, isReady, _, slot, stepped, rfl⟩
  · -- Nothing has been done, so the second step is the first one.
    obtain rfl := idle skipped
    rw [first] at second
    cases second
    rfl
  have keyedReady := isKeyed_enterExtension keyed isReady
  have regular := regular_of_isKeyed keyedReady
  have stored := (slot?_eq_attribute? regular.unambiguous).symm.trans slot
  have keyedContainer := keyedReady.of_slot? slot
  rw [tidyExtension_replaceSlot regular stored] at second ⊢
  by_cases holds : changed.holdsAny = true
  · -- The second step finds the object that the first one has left.
    rw [if_pos holds] at second ⊢
    have regularLeft := regular.replaceSlot urn (.object changed)
    have left : Object.attribute? (ready.replaceSlot urn (.object changed)) urn =
        some (.object changed) := attribute?_replaceSlot_self regular.unambiguous stored
    obtain ⟨again, steppedAgain, rfl⟩ := inExtension_of_there regularLeft left second
    obtain rfl := settles keyedContainer stepped steppedAgain
    rw [if_pos holds]
    exact regularLeft.replaceSlot_of_there left
  · -- The second step finds no object, and makes one at most to drop it.
    rw [if_neg holds] at second ⊢
    rcases inExtension_of_lacks (regular_dropExtension regular) (lacksExtension_dropExtension regular)
      second with ⟨_, skipped⟩ | ⟨create, made, steppedAgain, rfl⟩
    · exact idle skipped
    · exact if_neg fun holdsMade => holds (lasts create keyedContainer stepped steppedAgain holdsMade)

/-! ### Operations -/

/-- A change to a target that is made twice leaves what it has left the first time. -/
theorem applyTarget_again (keyed : Json.IsKeyed (.object before))
    (first : applyTarget target change before = .ok () between)
    (second : applyTarget target change between = .ok () after) : after = between := by
  simp only [applyTarget, step_bind_eq_ok_iff, step_check_eq_ok_iff] at first second
  obtain ⟨_, _, ⟨_, rfl⟩, _, _, ⟨_, rfl⟩, first⟩ := first
  obtain ⟨_, _, ⟨_, rfl⟩, _, _, ⟨_, rfl⟩, second⟩ := second
  cases place : target.container with
  | none =>
    rw [place] at first second
    exact applyInContainer_again keyed first second
  | some urn =>
    rw [place] at first second
    refine inExtension_again keyed applyInContainer_again (fun written keyed => ?_) ?_ first second
    · exact holdsAny_of_applyInContainer keyed written
    · intro resource left skipped
      split at skipped
      · exact absurd skipped step_throw_ne_ok
      · exact (step_pure_eq_ok_iff.mp skipped).2.symm

end Extension

variable {limits : Limits} {view : View} {operation : PatchOperation} {path : PatchPath}
  {resource once twice : Json}

/-- **An operation that is repeated changes nothing**: if an operation on an attribute succeeds on a
resource in which no object has two keys that are the same up to case, and succeeds on the outcome
again, it leaves the outcome as it is. -/
theorem patch_again (ordered : resource.Ordered) (distinct : resource.isDistinct = true)
    (isPath : operation.path = some path) (attributewise : path.wholeExtension? view = none)
    (first : patch limits view [operation] resource = ⟨once, none⟩)
    (second : patch limits view [operation] once = ⟨twice, none⟩) : twice = once := by
  obtain ⟨before, _, rfl, _, _⟩ := patch_singleton_eq_ok (congrArg PatchOutcome.error first)
  obtain ⟨between, rfl, appliedFirst⟩ := exists_of_patch_singleton first
  obtain ⟨after, rfl, appliedSecond⟩ := exists_of_patch_singleton second
  obtain ⟨target, change, isTarget, isChange, changedFirst⟩ :=
    PatchOperation.apply_eq_ok isPath attributewise appliedFirst
  obtain ⟨_, _, isSameTarget, isSameChange, changedSecond⟩ :=
    PatchOperation.apply_eq_ok isPath attributewise appliedSecond
  -- The path and the value are read the same way both times.
  obtain rfl := Except.ok.inj (isTarget.symm.trans isSameTarget)
  obtain rfl := Except.ok.inj (isChange.symm.trans isSameChange)
  exact congrArg Json.object (applyTarget_again ⟨ordered, distinct⟩ changedFirst changedSecond)

/-- The only attribute of an extension is replaced with nothing, so that the extension goes. Once more
it is made, and goes again. -/
theorem patch_again_emptied :
    let extension : Schema := { id := "urn:b", attributes := [{ name := "tags", multiValued := true }] }
    let view := View.ofSchemas { id := "urn:a", attributes := [{ name := "title" }] } [extension]
    let path : PatchPath := { reference := ⟨some "urn:b", "TAGS", none⟩ }
    let operation : PatchOperation :=
      { verb := .replace, path := some path, value := some (.array [.string ""]) }
    let resource : Json := .object [("URN:B", .object [("Tags", .array [.string "x"])]),
      ("schemas", .array [.string "urn:a", .string "Urn:b"]), ("title", .string "t")]
    let once : Json := .object [("schemas", .array [.string "urn:a"]), ("title", .string "t")]
    let twice := (patch {} view [operation] once).resource
    patch {} view [operation] resource = ⟨once, none⟩ ∧
      patch {} view [operation] once = ⟨twice, none⟩ ∧ twice = once := by
  refine and_assoc.mp ((and_iff_left_of_imp fun done => ?_).mpr ⟨rfl, rfl⟩)
  refine patch_again ?ordered rfl rfl rfl done.1 done.2
  case ordered =>
    simp only [Json.Ordered, Json.OrderedEntries, Json.OrderedItems, Object.Sorted, and_true]
    decide

end Scim
