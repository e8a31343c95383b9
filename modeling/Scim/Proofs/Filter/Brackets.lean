import Scim.Proofs.View
import Scim.Filter.Matching

/-!
# Two ways to write a term about a sub-attribute

A term about a sub-attribute can be written with a dot, `emails.type eq "work"`, or in brackets,
`emails[type eq "work"]`. The first collects the values of the sub-attribute in all elements before it
asks them, the second asks each element on its own; as one value that answers is enough, they come to
the same, whatever is stored. Where a complex attribute is compared itself, its sub-attribute `value`
is meant.
-/

namespace Scim

namespace Json

variable {stored : Option Json} {name : String} {test : Json → Bool}

/-- One of the values collected from all elements passes a test if one of those of some element does. -/
theorem any_subValues :
    (subValues stored name).any test =
      (flatten stored).any fun value =>
        match value with
        | .object element => (flatten (Object.attribute? element name)).any test
        | _ => false := by
  rw [subValues, List.any_flatMap]
  refine congrArg (flatten stored).any (funext fun value => ?_)
  cases value <;> rfl

/-- A test that only objects pass asks the elements of an array, or the value itself. -/
theorem any_flatten_of_objects (onObjects : ∀ value, value.object? = none → test value = false) :
    (flatten stored).any test =
      match stored with
      | some (.array items) => items.any test
      | some value => test value
      | none => false := by
  cases stored with
  | none => rfl
  | some value =>
    cases value with
    | null => exact (onObjects .null rfl).symm
    | array items =>
      -- What is left out of an array would not pass.
      rw [flatten, List.any_filter]
      refine congrArg items.any (funext fun item => ?_)
      cases item with
      | null => exact (onObjects .null rfl).symm
      | _ => rfl
    | _ => exact Bool.or_false _

end Json

namespace Filter

variable {view : View} {reference : Reference} {resolved : Resolved} {object : Object}
  {name : String} {sub : Attribute}

/-- In brackets a filter is asked of the single values that are stored. -/
theorem holds_valuePath (whole : resolved.sub = none) (complex : resolved.definition.isComplex = true)
    (bound : view.resolveAttribute? reference = some resolved) (inner : Filter) :
    holds (.resource object view) (.valuePath reference inner) =
      (Json.flatten (resolved.value? object)).any (inner.matchesElement resolved.definition) := by
  have onObjects (value : Json) (notObject : value.object? = none) :
      inner.matchesElement resolved.definition value = false := by
    cases value with
    | object => cases notObject
    | _ => rfl
  rw [Json.any_flatten_of_objects onObjects]
  simp only [holds, bound, whole, complex, Option.isSome_none, Bool.not_true, Bool.or_self,
    Bool.false_eq_true, if_false]
  rfl

/-- With a dot the values of all elements are looked up. -/
theorem lookup?_withSub (whole : reference.sub = none)
    (bound : view.resolveAttribute? reference = some resolved)
    (named : resolved.definition.sub? name = some sub) (asValue : Bool) :
    (Scope.resource object view).lookup? (reference.withSub name) asValue =
      some (sub, Json.subValues (resolved.value? object) sub.name) := by
  have deeper := View.resolveAttribute?_withSub whole named bound
  simp only [Scope.lookup?, deeper]
  rfl

/-- In brackets those of one element are. -/
theorem lookup?_element {definition : Attribute} (named : definition.sub? name = some sub)
    (element : Object) (asValue : Bool) :
    (Scope.element element definition).lookup? ⟨none, name, none⟩ asValue =
      some (sub, Json.flatten (element.attribute? sub.name)) := by
  simp [Scope.lookup?, named]

theorem holdsForValues_of_not_null {literal : Json} (notNull : literal.isNull = false)
    (operator : Operator) (definition : Attribute) (stored : List Json) :
    operator.holdsForValues definition stored literal =
      stored.any fun value => (operator.holdsForValue? definition value literal).getD false := by
  cases literal with
  | null => cases notNull
  | _ => rfl

/-- A term in brackets that tests the values of a sub-attribute in an element tests those of all
elements. -/
theorem holds_valuePath_of_test {inner : Filter} {test : Json → Bool} (whole : resolved.sub = none)
    (complex : resolved.definition.isComplex = true)
    (bound : view.resolveAttribute? reference = some resolved)
    (tests : ∀ element : Object, inner.holds (.element element resolved.definition) =
      (Json.flatten (element.attribute? sub.name)).any test) :
    holds (.resource object view) (.valuePath reference inner) =
      (Json.subValues (resolved.value? object) sub.name).any test := by
  rw [holds_valuePath whole complex bound, Json.any_subValues]
  refine congrArg (Json.flatten (resolved.value? object)).any (funext fun value => ?_)
  cases value with
  | object element => exact tests element
  | _ => rfl

/-- **A term about a sub-attribute says the same with a dot and in brackets**, in any view and of any
object, whatever is stored under the attribute. That holds for comparisons and for presence; comparing
with `null` asks for presence, too. A complex attribute that declares `value` is compared by it. -/
theorem isMatch_brackets (view : View) (object : Object) (reference : Reference) (resolved : Resolved)
    (name : String) (sub : Attribute) (whole : reference.sub = none)
    (bound : view.resolveAttribute? reference = some resolved)
    (complex : resolved.definition.isComplex = true)
    (named : resolved.definition.sub? name = some sub) :
    let matching := fun (filter : Filter) => filter.isMatch view (.object object)
    let dotted := reference.withSub name
    let bracketed : Reference := ⟨none, name, none⟩
    (∀ operator literal, literal.isNull = false →
      matching (.compare dotted operator literal) =
        matching (.valuePath reference (.compare bracketed operator literal))) ∧
      matching (.present dotted) = matching (.valuePath reference (.present bracketed)) ∧
      matching (.compare dotted .ne .null) = matching (.valuePath reference (.present bracketed)) ∧
      matching (.compare dotted .eq .null) = !matching (.valuePath reference (.present bracketed)) ∧
      ((resolved.definition.sub? "value").isSome = true → ∀ operator literal,
        matching (.compare reference operator literal) =
          matching (.compare (reference.withSub "value") operator literal)) := by
  intro matching dotted bracketed
  have noSub : resolved.sub = none := by
    rw [View.resolveAttribute?_sub bound, whole]
    rfl
  have compared {operator : Operator} {literal : Json} (notNull : literal.isNull = false) :
      matching (.valuePath reference (.compare bracketed operator literal)) =
        (Json.subValues (resolved.value? object) sub.name).any fun value =>
          (operator.holdsForValue? sub value literal).getD false := by
    refine holds_valuePath_of_test noSub complex bound fun element => ?_
    simp only [bracketed, holds, lookup?_element named, holdsForValues_of_not_null notNull]
  have present : matching (.valuePath reference (.present bracketed)) =
      (Json.subValues (resolved.value? object) sub.name).any Json.isPresent := by
    refine holds_valuePath_of_test noSub complex bound fun element => ?_
    simp only [bracketed, holds, lookup?_element named]
  have collected (asValue : Bool) :
      (Scope.resource object view).lookup? dotted asValue =
        some (sub, Json.subValues (resolved.value? object) sub.name) :=
    lookup?_withSub whole bound named asValue
  refine ⟨fun operator literal notNull => ?_, ?_, ?_, ?_, fun declared operator literal => ?_⟩
  · rw [compared notNull]
    simp only [matching, dotted, isMatch, holds, collected, holdsForValues_of_not_null notNull]
  · rw [present]
    simp only [matching, dotted, isMatch, holds, collected]
  · rw [present]
    simp only [matching, dotted, isMatch, holds, collected, Operator.holdsForValues]
  · rw [present]
    simp only [matching, dotted, isMatch, holds, collected, Operator.holdsForValues]
  · obtain ⟨value, isValue⟩ := Option.isSome_iff_exists.mp declared
    have itself : (Scope.resource object view).lookup? reference true =
        some (value, Json.subValues (resolved.value? object) value.name) := by
      simp [Scope.lookup?, bound, noSub, complex, isValue]
    simp only [matching, isMatch, holds, itself, lookup?_withSub whole bound isValue]

/-- The name leads to an extension, where `null`, an array and an object stand in a row: only the object
is asked. -/
theorem isMatch_brackets_work :
    let emails : Attribute :=
      { name := "emails", type := .complex, multiValued := true,
        subAttributes := [{ name := "value" }, { name := "type" }] }
    let extension : Schema := { id := "urn:b", attributes := [emails] }
    let view := View.ofSchemas { id := "urn:a", attributes := [{ name := "title" }] } [extension]
    let home : Json := .object [("type", .string "home")]
    let object : Object := [("URN:B", .object [("Emails", .array
      [.null, .array [home], .object [("TYPE", .string "Work")]])])]
    let matching := fun (filter : Filter) => filter.isMatch view (.object object)
    let reference : Reference := ⟨none, "EMAILS", none⟩
    let type : Reference := ⟨none, "Type", none⟩
    matching (.valuePath reference (.compare type .eq (.string "work"))) = true ∧
      matching (.valuePath reference (.compare type .eq (.string "home"))) = false ∧
      matching (.valuePath reference (.present type)) = true ∧
      matching (.compare reference .eq .null) = true := by
  -- What the dotted terms say is computed.
  refine ⟨?_, ?_, ?_, ?_⟩
  · exact ((isMatch_brackets _ _ _ ⟨⟨.extension 0, _⟩, _, none⟩ "Type" _ rfl rfl rfl rfl).1 _ _ rfl).symm
  · exact ((isMatch_brackets _ _ _ ⟨⟨.extension 0, _⟩, _, none⟩ "Type" _ rfl rfl rfl rfl).1 _ _ rfl).symm
  · exact (isMatch_brackets _ _ _ ⟨⟨.extension 0, _⟩, _, none⟩ "Type" _ rfl rfl rfl rfl).2.1.symm
  · exact (isMatch_brackets _ _ _ ⟨⟨.extension 0, _⟩, _, none⟩ "Type" _ rfl rfl rfl rfl).2.2.2.2 rfl _ _

end Filter

end Scim
