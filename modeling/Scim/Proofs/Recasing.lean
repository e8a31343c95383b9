import Scim.Filter.Matching
import Scim.Projection
import Scim.Proofs.Resource.Lowered
import Scim.Proofs.View

/-!
# Reading without regard to the case of keys

A resource and its lowered form are matched by the same filters, and what a projection shows of them
has the same lowered form. So two resources that differ in the case of their keys only cannot be told
apart by reading: every step of matching and of projecting commutes with `Json.lowered`.
-/

namespace Scim

variable {object : Object} {value : Json} {stored : Option Json}

/-! ### Stored values -/

namespace Json

theorem flatten_lowered (stored : Option Json) :
    flatten (stored.map lowered) = (flatten stored).map lowered := by
  cases stored with
  | none => rfl
  | some value =>
    cases value with
    | array items => simp [flatten, List.filter_map, Function.comp_def]
    | object object => simp [flatten]
    | _ => rfl

theorem isDistinct_of_mem_flatten (distinct : ∀ value ∈ stored, value.isDistinct = true) :
    ∀ value ∈ flatten stored, value.isDistinct = true := by
  intro value member
  cases stored with
  | none => cases member
  | some whole =>
    have wholeDistinct := distinct whole rfl
    cases whole with
    | null => cases member
    | array items => exact isDistinct_array_iff.mp wholeDistinct value (List.mem_of_mem_filter member)
    | _ =>
      obtain rfl := List.mem_singleton.mp member
      exact wholeDistinct

theorem isDistinct_of_read (distinct : isDistinct (.object object) = true) {name : String} :
    ∀ value ∈ object.attribute? name, value.isDistinct = true :=
  fun _ read => isDistinct_of_attribute? distinct read

theorem subValues_lowered (distinct : ∀ value ∈ stored, value.isDistinct = true) (sub : String) :
    subValues (stored.map lowered) sub = (subValues stored sub).map lowered := by
  rw [subValues, subValues, flatten_lowered, List.flatMap_map, List.map_flatMap]
  apply List.flatMap_congr
  intro value member
  have valueDistinct := isDistinct_of_mem_flatten distinct value member
  cases value with
  | object element =>
    have apart := (isDistinct_object_iff.mp valueDistinct).1
    simp only [lowered_object, Object.attribute?_lowered apart, flatten_lowered]
  | array items => simp
  | _ => rfl

theorem isDistinct_of_mem_subValues (distinct : ∀ value ∈ stored, value.isDistinct = true) {sub : String} :
    ∀ value ∈ subValues stored sub, value.isDistinct = true := by
  intro value member
  obtain ⟨whole, inStored, member⟩ := List.mem_flatMap.mp member
  have wholeDistinct := isDistinct_of_mem_flatten distinct whole inStored
  cases whole with
  | object element => exact isDistinct_of_mem_flatten (isDistinct_of_read wholeDistinct) value member
  | _ => cases member

end Json

namespace Resolved

theorem value?_lowered (resolved : Resolved) (distinct : Json.isDistinct (.object object) = true) :
    resolved.value? object.lowered = (resolved.value? object).map Json.lowered := by
  have apart := (Json.isDistinct_object_iff.mp distinct).1
  have containers : resolved.container? object.lowered =
      (resolved.container? object).map Object.lowered := by
    unfold container?
    cases resolved.member.key? with
    | none => rfl
    | some urn =>
      simp only [Object.attribute?_lowered apart]
      cases object.attribute? urn <;> simp
  rw [value?, value?, containers]
  cases found : resolved.container? object with
  | none => rfl
  | some container =>
    have within := Json.isDistinct_of_container? distinct found
    exact Object.attribute?_lowered (Json.isDistinct_object_iff.mp within).1 _

theorem isDistinct_of_value? (resolved : Resolved)
    (distinct : Json.isDistinct (.object object) = true) :
    ∀ value ∈ resolved.value? object, value.isDistinct = true := by
  intro value read
  obtain ⟨container, found, read⟩ := Option.bind_eq_some_iff.mp read
  exact Json.isDistinct_of_attribute? (Json.isDistinct_of_container? distinct found) read

end Resolved

/-! ### Matching -/

namespace Scope

def fields : Scope → Object
  | .resource object _ => object
  | .element object _ => object

def lowered : Scope → Scope
  | .resource object view => .resource object.lowered view
  | .element object parent => .element object.lowered parent

/-- No object in what is looked into has two keys that are the same up to case. -/
def IsDistinct (scope : Scope) : Prop := Json.isDistinct (.object scope.fields) = true

/-- A path stands for the lowered forms of the values that it stood for. -/
theorem lookup?_lowered {scope : Scope} (distinct : scope.IsDistinct) (path : Reference) (asValue : Bool) :
    scope.lowered.lookup? path asValue =
      (scope.lookup? path asValue).map fun found => (found.1, found.2.map Json.lowered) := by
  cases scope with
  | resource object view =>
    simp only [lowered, lookup?]
    cases view.resolveAttribute? path with
    | none => rfl
    | some resolved =>
      have fields : Json.isDistinct (.object object) = true := distinct
      have values := resolved.isDistinct_of_value? fields
      simp only [Option.bind_eq_bind, Option.bind_some, resolved.value?_lowered fields,
        Json.subValues_lowered values, Json.flatten_lowered]
      cases resolved.sub with
      | some sub => rfl
      | none =>
        cases asValue && resolved.definition.isComplex with
        | false => rfl
        | true => cases resolved.definition.sub? "value" <;> rfl
  | element object parent =>
    have apart : object.Distinct := (Json.isDistinct_object_iff.mp distinct).1
    simp only [lowered, lookup?, Object.attribute?_lowered apart, Json.flatten_lowered]
    cases path.urn.isSome || path.sub.isSome with
    | true => rfl
    | false => cases parent.sub? path.name <;> rfl

theorem isDistinct_of_lookup? {scope : Scope} (distinct : scope.IsDistinct) {path : Reference}
    {asValue : Bool} {definition : Attribute} {values : List Json}
    (found : scope.lookup? path asValue = some (definition, values)) :
    ∀ value ∈ values, value.isDistinct = true := by
  cases scope with
  | resource object view =>
    simp only [lookup?, Option.bind_eq_bind, Option.bind_eq_some_iff] at found
    obtain ⟨resolved, _, found⟩ := found
    have stored := resolved.isDistinct_of_value? distinct
    split at found
    · cases found
      exact Json.isDistinct_of_mem_subValues stored
    · split at found
      · obtain ⟨sub, _, found⟩ := Option.bind_eq_some_iff.mp found
        cases found
        exact Json.isDistinct_of_mem_subValues stored
      · cases found
        exact Json.isDistinct_of_mem_flatten stored
  | element object parent =>
    simp only [lookup?] at found
    split at found
    · cases found
    · obtain ⟨sub, _, found⟩ := Option.bind_eq_some_iff.mp found
      cases found
      exact Json.isDistinct_of_mem_flatten (Json.isDistinct_of_read distinct)

end Scope

/-- What is asked of the lowered values of a list is asked of its values. -/
theorem any_lowered {values : List Json} {test : Json → Bool}
    (same : ∀ value ∈ values, test value.lowered = test value) :
    (values.map Json.lowered).any test = values.any test := by
  rw [List.any_map, Bool.eq_iff_iff, List.any_eq_true, List.any_eq_true]
  apply exists_congr
  intro value
  apply and_congr_right
  intro member
  rw [Function.comp_apply, same value member]

namespace Operator

theorem holdsForValue?_lowered (operator : Operator) (definition : Attribute) (stored literal : Json) :
    operator.holdsForValue? definition stored.lowered literal =
      operator.holdsForValue? definition stored literal := by
  unfold holdsForValue?
  cases definition.type <;> simp <;> cases stored <;> simp [Json.lowered]

theorem holdsForValues_lowered (operator : Operator) (definition : Attribute) {values : List Json}
    (distinct : ∀ value ∈ values, value.isDistinct = true) (literal : Json) :
    operator.holdsForValues definition (values.map Json.lowered) literal =
      operator.holdsForValues definition values literal := by
  have present := any_lowered fun value member => Json.isPresent_lowered value (distinct value member)
  have compared : (values.map Json.lowered).any (fun value =>
        (operator.holdsForValue? definition value literal).getD false) =
      values.any fun value => (operator.holdsForValue? definition value literal).getD false := by
    apply any_lowered
    intro value _
    rw [holdsForValue?_lowered]
  unfold holdsForValues
  rw [present, compared]

end Operator

namespace Filter

/-- A value filter selects by the fields of an element. -/
theorem matchesElement_lowered {filter : Filter} {definition : Attribute}
    (same : ∀ fields, (Scope.element fields definition).IsDistinct →
      filter.holds (Scope.element fields definition).lowered =
        filter.holds (Scope.element fields definition))
    (value : Json) (distinct : value.isDistinct = true) :
    filter.matchesElement definition value.lowered = filter.matchesElement definition value := by
  cases value with
  | object fields =>
    rw [Json.lowered_object]
    exact same fields distinct
  | array items =>
    rw [Json.lowered_array]
    rfl
  | _ => rfl

/-- A filter does not see the case of keys, in a resource or in an element of an attribute. -/
theorem holds_lowered {scope : Scope} (distinct : scope.IsDistinct) (filter : Filter) :
    filter.holds scope.lowered = filter.holds scope := by
  induction filter generalizing scope with
  | compare path operator literal =>
    simp only [holds, Scope.lookup?_lowered distinct]
    cases found : scope.lookup? path true with
    | none => rfl
    | some entry =>
      exact operator.holdsForValues_lowered _ (Scope.isDistinct_of_lookup? distinct found) literal
  | present path =>
    simp only [holds, Scope.lookup?_lowered distinct]
    cases found : scope.lookup? path false with
    | none => rfl
    | some entry =>
      exact any_lowered fun value member =>
        Json.isPresent_lowered value (Scope.isDistinct_of_lookup? distinct found value member)
  | logical left connective right ihLeft ihRight =>
    cases connective <;> simp only [holds, ihLeft distinct, ihRight distinct]
  | group negated inner ih => simp only [holds, ih distinct]
  | valuePath path inner ih =>
    cases scope with
    | element object parent => rfl
    | resource object view =>
      simp only [Scope.lowered, holds]
      cases view.resolveAttribute? path with
      | none => rfl
      | some resolved =>
        -- An element is looked into by the names of its sub-attributes.
        have element := matchesElement_lowered fun fields =>
          @ih (Scope.element fields resolved.definition)
        have fields : Json.isDistinct (.object object) = true := distinct
        have values := resolved.isDistinct_of_value? fields
        simp only [resolved.value?_lowered fields]
        cases resolved.sub.isSome || !resolved.definition.isComplex with
        | true => rfl
        | false =>
          cases found : resolved.value? object with
          | none => rfl
          | some value =>
            have valueDistinct := values value found
            cases value with
            | array items =>
              rw [Option.map_some, Json.lowered_array]
              exact any_lowered fun item member =>
                element item (Json.isDistinct_array_iff.mp valueDistinct item member)
            | object entries =>
              rw [Option.map_some, Json.lowered_object]
              have apart := element (.object entries) valueDistinct
              rw [Json.lowered_object] at apart
              exact apart
            | _ => rfl

theorem isMatch_lowered {resource : Json} (distinct : resource.isDistinct = true) (filter : Filter)
    (view : View) : filter.isMatch view resource.lowered = filter.isMatch view resource := by
  cases resource with
  | object object =>
    have whole : (Scope.resource object view).IsDistinct := distinct
    rw [Json.lowered_object]
    exact filter.holds_lowered whole
  | array items =>
    rw [Json.lowered_array]
    rfl
  | _ => rfl

end Filter

/-! ### Projecting -/

section Complex

variable (definition : Attribute) (shows : Attribute → Bool)

/-- The shown form of one entry of a complex value. -/
def showEntry (entry : String × Json) : Option (String × Json) := do
  let sub ← definition.sub? entry.1
  if shows sub && entry.2.isPresent then some (sub.name, entry.2) else none

theorem showEntry_eq_some {entry shown : String × Json}
    (made : showEntry definition shows entry = some shown) :
    Text.fold shown.1 = Text.fold entry.1 ∧ shown.2 = entry.2 := by
  obtain ⟨sub, found, made⟩ := Option.bind_eq_some_iff.mp made
  split at made
  · cases made
    exact ⟨(Attribute.find?_eq_some found).2, rfl⟩
  · cases made

theorem showEntry_lowered {entry : String × Json} (distinct : entry.2.isDistinct = true) :
    (showEntry definition shows (Json.loweredEntry entry)).map Json.loweredEntry =
      (showEntry definition shows entry).map Json.loweredEntry := by
  have sameSub : definition.sub? (Text.lowerAscii entry.1) = definition.sub? entry.1 :=
    Attribute.find?_congr (Text.fold_lowerAscii entry.1)
  simp only [showEntry, Json.loweredEntry, sameSub, Json.isPresent_lowered entry.2 distinct]
  cases definition.sub? entry.1 with
  | none => rfl
  | some sub =>
    simp only [Option.bind_eq_bind, Option.bind_some]
    split <;> simp [Json.loweredEntry, Json.lowered_lowered entry.2 distinct]

mutual

theorem isDistinct_projectComplex : ∀ value : Json, value.isDistinct = true →
    (projectComplex definition shows value).isDistinct = true
  | .null, _ | .bool _, _ | .number _, _ | .string _, _ => rfl
  | .array items, distinct => isDistinct_projectItems items distinct
  | .object entries, distinct => by
    obtain ⟨apart, values⟩ := Json.isDistinct_object_iff.mp distinct
    refine Object.isDistinct_filterMap apart
      (fun _ _ made => (showEntry_eq_some definition shows made).1) fun entry member shown made => ?_
    rw [(showEntry_eq_some definition shows made).2]
    exact values entry member

theorem isDistinct_projectItems : ∀ items : List Json, Json.isDistinctItems items = true →
    Json.isDistinctItems (projectItems definition shows items) = true
  | [], _ => rfl
  | item :: rest, distinct => by
    rw [Json.isDistinctItems, Bool.and_eq_true] at distinct
    have first := isDistinct_projectComplex item distinct.1
    have others := isDistinct_projectItems rest distinct.2
    rw [projectItems]
    split
    · rw [Json.isDistinctItems, first, others, Bool.and_self]
    · exact others

end

mutual

/-- The same is shown of a complex value and of its lowered form, up to the case of keys. -/
theorem lowered_projectComplex : ∀ value : Json, value.isDistinct = true →
    (projectComplex definition shows value.lowered).lowered =
      (projectComplex definition shows value).lowered
  | .null, _ | .bool _, _ | .number _, _ | .string _, _ => rfl
  | .array items, distinct => congrArg Json.array (lowered_projectItems items distinct)
  | .object entries, distinct => by
    obtain ⟨apart, values⟩ := Json.isDistinct_object_iff.mp distinct
    have shown := Object.lowered_filterMap apart
      (fun _ _ made => (showEntry_eq_some definition shows made).1) fun entry member =>
        showEntry_lowered definition shows (values entry member)
    rw [Json.lowered_object, projectComplex, projectComplex, Json.lowered_object, Json.lowered_object]
    exact congrArg Json.object shown

theorem lowered_projectItems : ∀ items : List Json, Json.isDistinctItems items = true →
    Json.loweredItems (projectItems definition shows (Json.loweredItems items)) =
      Json.loweredItems (projectItems definition shows items)
  | [], _ => rfl
  | item :: rest, distinct => by
    rw [Json.isDistinctItems, Bool.and_eq_true] at distinct
    have first : Json.Recased (projectComplex definition shows item.lowered)
        (projectComplex definition shows item) :=
      ⟨lowered_projectComplex item distinct.1,
        isDistinct_projectComplex definition shows _ (Json.isDistinct_lowered item distinct.1),
        isDistinct_projectComplex definition shows item distinct.1⟩
    have others := lowered_projectItems rest distinct.2
    rw [Json.loweredItems, projectItems, projectItems, first.isPresent_eq]
    split
    · rw [Json.loweredItems, Json.loweredItems, first.lowered_eq, others]
    · exact others

end

end Complex

namespace Projection

variable (projection : Projection) (member : Member)

/-- Of an attribute nothing is shown, or the whole value, or some of its sub-attributes. Which of the
three it is does not depend on the value. -/
theorem value?_cases (definition : Attribute) :
    (∀ value, projection.value? member definition value = none) ∨
    (∀ value : Json, projection.value? member definition value =
      if value.isPresent then some value else none) ∨
    ∃ shows, ∀ value : Json, projection.value? member definition value =
      if value.isPresent && (projectComplex definition shows value).isPresent then
        some (projectComplex definition shows value)
      else none := by
  let included := Mentions.ofSelected projection.included member definition
  let excluded := Mentions.ofSelected projection.excluded member definition
  let visible := visibility definition.returned projection.asks included excluded
  have unfolded (value : Json) : projection.value? member definition value =
      if definition.isHidden || !value.isPresent then none
      else if visible = .none then none
      else if !definition.isComplex then some value
      else
        let projected := projectComplex definition (showsSub visible included excluded) value
        if projected.isPresent then some projected else none := rfl
  by_cases hidden : definition.isHidden = true ∨ visible = .none
  · left
    intro value
    rcases hidden with hidden | invisible
    · simp [unfolded, hidden]
    · simp [unfolded, invisible]
  · right
    obtain ⟨shown, isVisible⟩ := not_or.mp hidden
    cases complex : definition.isComplex with
    | false =>
      left
      intro value
      cases present : value.isPresent <;> simp [unfolded, shown, isVisible, complex, present]
    | true =>
      right
      refine ⟨showsSub visible included excluded, fun value => ?_⟩
      cases present : value.isPresent <;> simp [unfolded, shown, isVisible, complex, present]

/-- What is shown of a value and of its lowered form differs in the case of keys only. -/
theorem value?_lowered (definition : Attribute) (distinct : value.isDistinct = true) :
    (projection.value? member definition value.lowered).map Json.lowered =
      (projection.value? member definition value).map Json.lowered := by
  rcases projection.value?_cases member definition with hidden | whole | ⟨shows, cut⟩
  · rw [hidden, hidden]
  · rw [whole, whole, Json.isPresent_lowered value distinct]
    split
    · rw [Option.map_some, Json.lowered_lowered value distinct, Option.map_some]
    · rfl
  · have recased : Json.Recased (projectComplex definition shows value.lowered)
        (projectComplex definition shows value) :=
      ⟨lowered_projectComplex definition shows value distinct,
        isDistinct_projectComplex definition shows _ (Json.isDistinct_lowered value distinct),
        isDistinct_projectComplex definition shows value distinct⟩
    rw [cut, cut, Json.isPresent_lowered value distinct, recased.isPresent_eq]
    split
    · rw [Option.map_some, recased.lowered_eq, Option.map_some]
    · rfl

theorem isDistinct_of_value? {definition : Attribute} {shown : Json} (distinct : value.isDistinct = true)
    (made : projection.value? member definition value = some shown) : shown.isDistinct = true := by
  rcases projection.value?_cases member definition with hidden | whole | ⟨shows, cut⟩
  · rw [hidden] at made
    cases made
  · rw [whole] at made
    split at made <;> cases made
    exact distinct
  · rw [cut] at made
    split at made <;> cases made
    exact isDistinct_projectComplex definition shows value distinct

/-- The shown form of one entry that holds an attribute of a member. -/
def attributeEntry (entry : String × Json) : Option (String × Json) := do
  let definition ← member.schema.find? entry.1
  let value ← projection.value? member definition entry.2
  return (definition.name, value)

theorem fold_of_attributeEntry {entry shown : String × Json}
    (made : projection.attributeEntry member entry = some shown) :
    Text.fold shown.1 = Text.fold entry.1 := by
  obtain ⟨definition, found, made⟩ := Option.bind_eq_some_iff.mp made
  obtain ⟨value, _, made⟩ := Option.bind_eq_some_iff.mp made
  cases made
  exact (Attribute.find?_eq_some found).2

theorem isDistinct_of_attributeEntry {entry shown : String × Json} (distinct : entry.2.isDistinct = true)
    (made : projection.attributeEntry member entry = some shown) : shown.2.isDistinct = true := by
  obtain ⟨definition, _, made⟩ := Option.bind_eq_some_iff.mp made
  obtain ⟨value, shownValue, made⟩ := Option.bind_eq_some_iff.mp made
  cases made
  exact projection.isDistinct_of_value? member distinct shownValue

theorem attributeEntry_lowered {entry : String × Json} (distinct : entry.2.isDistinct = true) :
    (projection.attributeEntry member (Json.loweredEntry entry)).map Json.loweredEntry =
      (projection.attributeEntry member entry).map Json.loweredEntry := by
  have sameName : member.schema.find? (Text.lowerAscii entry.1) = member.schema.find? entry.1 :=
    Attribute.find?_congr (Text.fold_lowerAscii entry.1)
  simp only [attributeEntry, Json.loweredEntry, sameName]
  cases member.schema.find? entry.1 with
  | none => rfl
  | some definition =>
    -- The name is the declared one, so only the value is to be compared.
    have named (shown : Option Json) :
        (shown.bind fun value => some (definition.name, value)).map Json.loweredEntry =
          (shown.map Json.lowered).map (Prod.mk (Text.lowerAscii definition.name)) := by
      cases shown <;> rfl
    have values := projection.value?_lowered member definition distinct
    exact (named _).trans ((congrArg _ values).trans (named _).symm)

variable {object : Object}

theorem isDistinct_entries (distinct : Json.isDistinct (.object object) = true) :
    Json.isDistinct (.object (projection.entries member object)) = true := by
  obtain ⟨apart, values⟩ := Json.isDistinct_object_iff.mp distinct
  exact Object.isDistinct_filterMap apart (fun _ _ => projection.fold_of_attributeEntry member)
    fun entry there _ => projection.isDistinct_of_attributeEntry member (values entry there)

theorem lowered_entries (distinct : Json.isDistinct (.object object) = true) :
    Object.lowered (projection.entries member object.lowered) =
      Object.lowered (projection.entries member object) := by
  obtain ⟨apart, values⟩ := Json.isDistinct_object_iff.mp distinct
  exact Object.lowered_filterMap apart (fun _ _ => projection.fold_of_attributeEntry member)
    fun entry there => projection.attributeEntry_lowered member (values entry there)

/-- The shown form of the object of an extension. -/
def extensionEntry (extension : Member) (value : Json) : Option (String × Json) :=
  match value with
  | .object fields =>
    if (projection.entries extension fields).isEmpty then none
    else some (extension.schema.id, .object (projection.entries extension fields))
  | _ => none

theorem entry?_eq (entry : String × Json) :
    projection.entry? entry.1 entry.2 =
      if Text.sameName entry.1 "schemas" then some entry
      else
        match projection.view.extensionFor? entry.1 with
        | some extension => projection.extensionEntry extension entry.2
        | none => projection.attributeEntry projection.view.baseMember entry := rfl

theorem extensionEntry_eq_some {extension : Member} {shown : String × Json}
    (made : projection.extensionEntry extension value = some shown) :
    ∃ fields, value = .object fields ∧
      shown = (extension.schema.id, .object (projection.entries extension fields)) := by
  unfold extensionEntry at made
  split at made
  next fields =>
    split at made <;> cases made
    exact ⟨fields, rfl, rfl⟩
  · cases made

theorem extensionEntry_lowered {extension : Member} (distinct : value.isDistinct = true) :
    (projection.extensionEntry extension value.lowered).map Json.loweredEntry =
      (projection.extensionEntry extension value).map Json.loweredEntry := by
  cases value with
  | object fields =>
    have same := projection.lowered_entries extension distinct
    have shown := Json.isDistinct_object_iff.mp (projection.isDistinct_entries extension distinct)
    have lowered := Json.isDistinct_lowered _ distinct
    rw [Json.lowered_object] at lowered
    have shownLowered := Json.isDistinct_object_iff.mp (projection.isDistinct_entries extension lowered)
    rw [Json.lowered_object, extensionEntry, extensionEntry,
      Object.isEmpty_eq_of_lowered shownLowered.1 shown.1 same]
    split
    · rfl
    · simp [Json.loweredEntry, same]
  | array items =>
    rw [Json.lowered_array]
    rfl
  | _ => rfl

theorem fold_of_entry? {entry shown : String × Json}
    (made : projection.entry? entry.1 entry.2 = some shown) : Text.fold shown.1 = Text.fold entry.1 := by
  rw [entry?_eq] at made
  split at made
  · cases made
    rfl
  · split at made
    next extension found =>
      obtain ⟨fields, _, rfl⟩ := projection.extensionEntry_eq_some made
      exact View.fold_id_of_extensionFor? found
    · exact projection.fold_of_attributeEntry _ made

theorem isDistinct_of_entry? {entry shown : String × Json} (distinct : entry.2.isDistinct = true)
    (made : projection.entry? entry.1 entry.2 = some shown) : shown.2.isDistinct = true := by
  rw [entry?_eq] at made
  split at made
  · cases made
    exact distinct
  · split at made
    · obtain ⟨fields, stored, rfl⟩ := projection.extensionEntry_eq_some made
      exact projection.isDistinct_entries _ (stored ▸ distinct)
    · exact projection.isDistinct_of_attributeEntry _ distinct made

theorem entry?_lowered {entry : String × Json} (distinct : entry.2.isDistinct = true) :
    (projection.entry? (Json.loweredEntry entry).1 (Json.loweredEntry entry).2).map Json.loweredEntry =
      (projection.entry? entry.1 entry.2).map Json.loweredEntry := by
  have sameName (name : String) :
      Text.sameName (Json.loweredEntry entry).1 name = Text.sameName entry.1 name := by
    simp [Text.sameName, Json.loweredEntry]
  have sameExtension : projection.view.extensionFor? (Json.loweredEntry entry).1 =
      projection.view.extensionFor? entry.1 := by
    simp [View.extensionFor?, Text.sameName, Json.loweredEntry]
  rw [entry?_eq, entry?_eq, sameName, sameExtension]
  split
  · rw [Option.map_some, Json.loweredEntry_loweredEntry distinct, Option.map_some]
  · split
    · exact projection.extensionEntry_lowered distinct
    · exact projection.attributeEntry_lowered _ distinct

end Projection

variable {resource : Json} (selection : Selection) (view : View)

theorem isDistinct_project {shown : Json} (distinct : resource.isDistinct = true)
    (made : project selection view resource = .ok shown) : shown.isDistinct = true := by
  unfold project at made
  split at made
  · cases made
  · split at made
    next object =>
      cases made
      obtain ⟨apart, values⟩ := Json.isDistinct_object_iff.mp distinct
      exact Object.isDistinct_filterMap apart (fun _ _ => Projection.fold_of_entry? _)
        fun entry there _ => Projection.isDistinct_of_entry? _ (values entry there)
    · cases made
      exact distinct

/-- A projection shows the same of a resource and of its lowered form, up to the case of keys. -/
theorem project_lowered (distinct : resource.isDistinct = true) :
    (project selection view resource.lowered).map Json.lowered =
      (project selection view resource).map Json.lowered := by
  unfold project
  split
  · rfl
  · cases resource with
    | object object =>
      obtain ⟨apart, values⟩ := Json.isDistinct_object_iff.mp distinct
      have shown := Object.lowered_filterMap apart
        (fun _ _ => Projection.fold_of_entry? (selection.projection view)) fun entry there =>
          Projection.entry?_lowered (selection.projection view) (values entry there)
      rw [Json.lowered_object]
      simp only [Except.map, Json.lowered_object, Except.ok.injEq, Json.object.injEq]
      exact shown
    | array items => exact congrArg Except.ok (Json.lowered_lowered (.array items) distinct)
    | _ => rfl

/-- **Key case is irrelevant to reading**: two resources that differ in the case of their keys at most
are matched by the same filters, and every selection either fails on both or shows two values of
them that again differ in the case of their keys at most. -/
theorem isMatch_project_recased {resource other : Json} (recased : resource.Recased other) (view : View) :
    (∀ filter : Filter, filter.isMatch view resource = filter.isMatch view other) ∧
    ∀ selection : Selection,
      (∃ error, project selection view resource = .error error ∧
        project selection view other = .error error) ∨
      ∃ shown shownOther, project selection view resource = .ok shown ∧
        project selection view other = .ok shownOther ∧ shown.Recased shownOther := by
  obtain ⟨same, distinct, distinctOther⟩ := recased
  constructor
  · intro filter
    calc filter.isMatch view resource
        = filter.isMatch view resource.lowered := (filter.isMatch_lowered distinct view).symm
      _ = filter.isMatch view other.lowered := by rw [same]
      _ = filter.isMatch view other := filter.isMatch_lowered distinctOther view
  · intro selection
    have shown : (project selection view resource).map Json.lowered =
        (project selection view other).map Json.lowered := by
      rw [← project_lowered selection view distinct, same, project_lowered selection view distinctOther]
    cases made : project selection view resource with
    | error error =>
      cases madeOther : project selection view other with
      | error fault =>
        rw [made, madeOther] at shown
        cases shown
        exact .inl ⟨error, rfl, rfl⟩
      | ok value =>
        rw [made, madeOther] at shown
        cases shown
    | ok value =>
      cases madeOther : project selection view other with
      | error fault =>
        rw [made, madeOther] at shown
        cases shown
      | ok valueOther =>
        rw [made, madeOther] at shown
        exact .inr ⟨value, valueOther, rfl, rfl, Except.ok.inj shown,
          isDistinct_project selection view distinct made,
          isDistinct_project selection view distinctOther madeOther⟩

/-- Recasing puts the entries of every object in another order: a capital stands before all small
letters. The filter matches both resources, and what is not asked for is cut from both, in the elements
of the array and in the extension too; only the key that no schema declares is shown as it was written. -/
theorem isMatch_project_recased_badge :
    let emails : Attribute :=
      { name := "emails", type := .complex, multiValued := true
        subAttributes := [{ name := "first" }, { name := "Last" }] }
    let view := View.ofSchemas { id := "urn:a", attributes := [emails, { name := "title" }] }
      [{ id := "urn:b", attributes := [{ name := "badge" }, { name := "Pin" }] }]
    let resource : Json := .object
      [("EMAILS", .array [.object [("FIRST", .string "A"), ("last", .string "B")]]),
        ("SCHEMAS", .array [.string "urn:a"]), ("title", .string "t"),
        ("urn:b", .object [("Badge", .string "7"), ("pin", .string "1")])]
    let other : Json := .object
      [("Schemas", .array [.string "urn:a"]), ("Title", .string "t"),
        ("URN:B", .object [("PIN", .string "1"), ("badge", .string "7")]),
        ("emails", .array [.object [("LAST", .string "B"), ("first", .string "A")]])]
    let filter : Filter := .logical (.valuePath ⟨none, "emails", none⟩ (.present ⟨none, "first", none⟩)) .and
      (.compare ⟨some "urn:b", "badge", none⟩ .eq (.string "7"))
    let selection : Selection :=
      { included := [⟨none, "emails", some "last"⟩, ⟨some "urn:b", "badge", none⟩] }
    let shown : Json := .object
      [("SCHEMAS", .array [.string "urn:a"]), ("emails", .array [.object [("Last", .string "B")]]),
        ("urn:b", .object [("badge", .string "7")])]
    let shownOther : Json := .object
      [("Schemas", .array [.string "urn:a"]), ("emails", .array [.object [("Last", .string "B")]]),
        ("urn:b", .object [("badge", .string "7")])]
    resource.Recased other ∧ filter.isMatch view resource = filter.isMatch view other ∧
      filter.isMatch view resource = true ∧ project selection view resource = .ok shown ∧
      project selection view other = .ok shownOther ∧ shown.Recased shownOther := by
  intro emails view resource other filter selection shown shownOther
  have element : Json.lowered (.object [("FIRST", .string "A"), ("last", .string "B")]) =
      Json.lowered (.object [("LAST", .string "B"), ("first", .string "A")]) :=
    (Json.lowered_object_eq_iff (by decide) (by decide)).mpr (by simp [Text.fold, Json.lowered])
  have elements := Json.lowered_array_eq_iff.mpr (.cons element .nil)
  have badges : Json.lowered (.object [("Badge", .string "7"), ("pin", .string "1")]) =
      Json.lowered (.object [("PIN", .string "1"), ("badge", .string "7")]) :=
    (Json.lowered_object_eq_iff (by decide) (by decide)).mpr (by simp [Text.fold, Json.lowered])
  have same : resource.lowered = other.lowered :=
    (Json.lowered_object_eq_iff (by decide) (by decide)).mpr
      (by simp [Text.fold, elements, badges, -Json.lowered_object, -Json.lowered_array])
  have recased : resource.Recased other := ⟨same, by decide, by decide⟩
  obtain ⟨matching, projecting⟩ := isMatch_project_recased recased view
  have made : project selection view resource = .ok shown := by
    dsimp +zetaDelta only
    rfl
  have madeOther : project selection view other = .ok shownOther := by
    dsimp +zetaDelta only
    rfl
  refine ⟨recased, matching filter, by decide, made, madeOther, ?_⟩
  rcases projecting selection with ⟨error, failed, _⟩ | ⟨_, _, isShown, isShownOther, shownRecased⟩
  · cases made.symm.trans failed
  · cases made.symm.trans isShown
    cases madeOther.symm.trans isShownOther
    exact shownRecased

end Scim
