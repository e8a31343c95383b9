import Scim.Proofs.Urn

/-!
# Addressing attributes

A text addresses an attribute by its name or by the URN of its schema and its name, in any ASCII
case. Behind a URN it stands for the attribute of that schema. A URN may have dots and colons of its
own, since names have neither. Without a URN the text stands for the attribute of the first schema
that knows all of the names: a schema that declares the attribute but not the sub-attribute is passed
over.
-/

namespace Scim

/-! ### Words in another case -/

theorem isNameChar_toLower (c : Char) : isNameChar c.toLower = isNameChar c := by
  rcases Text.toLower_cases c with same | ⟨letter, small, _⟩
  · rw [same]
  · simp [isNameChar, Char.isAlphanum, letter, small]

theorem isWord_toLower (name : List Char) : IsWord (name.map Char.toLower) ↔ IsWord name := by
  cases name with
  | nil => simp [IsWord]
  | cons first rest =>
    rcases Text.toLower_cases first with same | ⟨letter, small, _⟩
    · simp [isWord_cons, isNameChar_toLower, same]
    · simp [isWord_cons, isNameChar_toLower, letter, small]

theorem isWord_congr {name other : String} (same : Text.fold name = Text.fold other) :
    IsWord name.toList ↔ IsWord other.toList := by
  rw [← isWord_toLower name.toList, ← isWord_toLower other.toList]
  exact iff_of_eq (congrArg IsWord same)

/-! ### Declared names -/

/-- A schema declares an attribute under a name, with a sub-attribute if one is named. -/
structure Schema.Declares (schema : Schema) (name : String) (sub : Option String)
    (definition : Attribute) (inner : Option Attribute) : Prop where
  declared : definition ∈ schema.attributes
  named : Text.fold definition.name = Text.fold name
  part : Option.Rel (fun inner sub =>
    inner ∈ definition.subAttributes ∧ Text.fold inner.name = Text.fold sub) inner sub

/-- A valid schema has a URN. -/
theorem Schema.ne_empty_of_validate {schema : Schema} (valid : schema.validate = .ok ()) {urn : String}
    (same : Text.fold urn = Text.fold schema.id) : urn ≠ "" := by
  rintro rfl
  have empty : schema.id.toList = [] := by simpa [Text.fold] using same
  rw [validate, Text.isBlankText, empty] at valid
  cases valid

/-- Declared names that are words can be written as a reference, in any case. -/
theorem Schema.Declares.hasNames {schema : Schema} {urn sub : Option String} {name : String}
    {definition : Attribute} {inner : Option Attribute}
    (declares : schema.Declares name sub definition inner) (isWord : IsWord definition.name.toList)
    (isWordSub : ∀ part ∈ inner, IsWord part.name.toList) : Reference.HasNames ⟨urn, name, sub⟩ := by
  obtain ⟨_, named, part⟩ := declares
  refine ⟨.inl ((isWord_congr named).mp isWord), fun written isSub => .inl ?_⟩
  cases part with
  | none => cases isSub
  | some found =>
    cases isSub
    exact (isWord_congr found.2).mp (isWordSub _ rfl)

namespace View

variable {view : View} {member : Member} {urn name text : String} {sub : Option String}
  {definition : Attribute} {inner : Option Attribute} {reference : Reference} {resolved : Resolved}

/-- A valid schema knows the names that it declares, in any case. -/
theorem resolveIn?_eq_some_iff (valid : member.schema.validate = .ok ()) :
    resolveIn? reference member = some resolved ↔
      resolved.member = member ∧ member.schema.Declares reference.name reference.sub
        resolved.definition resolved.sub := by
  obtain ⟨urn, name, sub⟩ := reference
  obtain ⟨owner, definition, inner⟩ := resolved
  have names := Schema.names_of_validate valid
  constructor
  · intro bound
    obtain ⟨found, isFound, bound⟩ := Option.bind_eq_some_iff.mp bound
    obtain ⟨declared, named⟩ := Attribute.find?_eq_some isFound
    cases sub with
    | none =>
      cases bound
      exact ⟨rfl, declared, named, .none⟩
    | some sub =>
      obtain ⟨inner, isSub, bound⟩ := Option.bind_eq_some_iff.mp bound
      cases bound
      exact ⟨rfl, declared, named, .some (Attribute.find?_eq_some isSub)⟩
  · -- Names are different in their lists, so that each finds what is declared under it.
    rintro ⟨rfl, declared, named, part⟩
    have found : owner.schema.find? name = some definition :=
      (Attribute.find?_eq_some_iff names).mpr ⟨declared, named⟩
    have subNames := Schema.subNames_of_validate valid declared
    cases part with
    | none => simp [resolveIn?, found]
    | some isSub =>
      have foundSub : definition.sub? _ = some _ := (Attribute.find?_eq_some_iff subNames).mpr isSub
      simp [resolveIn?, found, foundSub]

theorem resolveIn?_of_declares (valid : member.schema.validate = .ok ())
    (declares : member.schema.Declares reference.name reference.sub definition inner) :
    resolveIn? reference member = some ⟨member, definition, inner⟩ :=
  (resolveIn?_eq_some_iff valid).mpr ⟨rfl, declares⟩

/-- Where URNs are kept apart, each of them finds its schema. -/
theorem memberFor?_of_pairwise
    (apart : view.members.Pairwise fun first second =>
      Text.fold first.schema.id ≠ Text.fold second.schema.id)
    (member_mem : member ∈ view.members) (same : Text.fold urn = Text.fold member.schema.id) :
    view.memberFor? urn = some member :=
  (find?_key_iff apart).mpr ⟨member_mem, same.symm⟩

/-- Without a URN, names stand for what the first schema that declares all of them declares. -/
theorem resolveAttribute?_first (valid : ∀ member ∈ view.members, member.schema.validate = .ok ())
    (member_mem : member ∈ view.members) (declares : member.schema.Declares name sub definition inner) :
    ∃ front owner back first part, view.members = front ++ owner :: back ∧
      (∀ earlier ∈ front, ∀ other part, ¬ earlier.schema.Declares name sub other part) ∧
      owner.schema.Declares name sub first part ∧
      view.resolveAttribute? ⟨none, name, sub⟩ = some ⟨owner, first, part⟩ := by
  cases bound : view.resolveAttribute? ⟨none, name, sub⟩ with
  | none =>
    have unknown := List.findSome?_eq_none_iff.mp bound member member_mem
    rw [resolveIn?_of_declares (valid member member_mem) declares] at unknown
    cases unknown
  | some resolved =>
    -- What stands in front of the schema that was taken has been tried in vain.
    obtain ⟨front, owner, back, split, here, before⟩ := List.findSome?_eq_some_iff.mp bound
    have owner_mem : owner ∈ view.members := by simp [split]
    obtain ⟨rfl, first⟩ := (resolveIn?_eq_some_iff (valid owner owner_mem)).mp here
    refine ⟨front, resolved.member, back, _, _, split, ?_, first, rfl⟩
    intro earlier earlier_mem other part known
    have validEarlier := valid earlier (by simp [split, earlier_mem])
    have unknown := before earlier earlier_mem
    rw [resolveIn?_of_declares validEarlier known] at unknown
    cases unknown

/-- A text stands for an attribute: it is read as a reference that is bound to the attribute, whose
value stands at the top level of a resource, for an attribute of the base, or in the object under the
URN of its extension. -/
structure Addresses (view : View) (text : String) (resolved : Resolved) : Prop where
  bound : ∃ reference, Reference.parse text = .ok reference ∧
    view.resolveAttribute? reference = some resolved
  atTop : resolved.member = view.baseMember →
    ∀ resource, resolved.container? resource = some resource
  inObject : resolved.member ∈ view.extensionMembers → ∀ resource,
    resolved.container? resource = (resource.attribute? resolved.member.schema.id).bind Json.object?

theorem addresses_of_parse
    (apart : view.members.Pairwise fun first second =>
      Text.fold first.schema.id ≠ Text.fold second.schema.id)
    (parsed : Reference.parse text = .ok reference)
    (bound : view.resolveAttribute? reference = some resolved) : view.Addresses text resolved where
  bound := ⟨reference, parsed, bound⟩
  atTop isBase resource := by simp [Resolved.container?, isBase, baseMember, Member.key?]
  inObject isExtension resource := by simp [Resolved.container?, key?_of_pairwise apart isExtension]

/-- **Names address what schemas declare**, in any case. Let the schemas of a view be valid and have
different URNs, and let one of them declare an attribute, and a sub-attribute where one is named, under
names that are words. Behind the URN of the schema the names address just that attribute. Without a URN
they address what the first schema that declares all of them declares, the base before the extensions.
-/
theorem addresses_of_declares (valid : ∀ member ∈ view.members, member.schema.validate = .ok ())
    (apart : view.members.Pairwise fun first second =>
      Text.fold first.schema.id ≠ Text.fold second.schema.id)
    (member_mem : member ∈ view.members)
    (declares : member.schema.Declares name sub definition inner)
    (isWord : IsWord definition.name.toList) (isWordSub : ∀ part ∈ inner, IsWord part.name.toList)
    (sameUrn : Text.fold urn = Text.fold member.schema.id) :
    view.Addresses (Reference.text ⟨some urn, name, sub⟩) ⟨member, definition, inner⟩ ∧
      ∃ front owner back first part, view.members = front ++ owner :: back ∧
        (∀ earlier ∈ front, ∀ other part, ¬ earlier.schema.Declares name sub other part) ∧
        owner.schema.Declares name sub first part ∧
        view.Addresses (Reference.text ⟨none, name, sub⟩) ⟨owner, first, part⟩ := by
  have hasNames (urn) : Reference.HasNames ⟨urn, name, sub⟩ := declares.hasNames isWord isWordSub
  have hasUrn : urn ≠ "" := Schema.ne_empty_of_validate (valid member member_mem) sameUrn
  constructor
  · -- The URN picks the schema, whatever the others declare.
    have parsed := Reference.parse_text ⟨by simpa using hasUrn, .inl (hasNames (some urn))⟩
    refine addresses_of_parse apart parsed ?_
    simp only [resolveAttribute?, memberFor?_of_pairwise apart member_mem sameUrn, Option.bind_some]
    exact resolveIn?_of_declares (valid member member_mem) declares
  · have parsed := Reference.parse_text ⟨by simp, .inl (hasNames none)⟩
    obtain ⟨front, owner, back, first, part, split, before, here, bound⟩ :=
      resolveAttribute?_first valid member_mem declares
    exact ⟨front, owner, back, first, part, split, before, here, addresses_of_parse apart parsed bound⟩

/-- The base declares the attribute without the sub-attribute, so that the names go past it to the
extension, with and without the URN. -/
theorem addresses_past_base :
    let colour : Attribute := { name := "colour" }
    let badge : Attribute := { name := "badge", type := .complex, subAttributes := [colour] }
    let plain : Attribute := { name := "Badge" }
    let extension : Schema := { id := "urn:acme:ext.2:Card", attributes := [badge] }
    let view := View.ofSchemas { id := "urn:a", attributes := [plain] } [extension]
    let resolved : Resolved := ⟨⟨.extension 0, extension⟩, badge, some colour⟩
    view.Addresses "URN:acme:ext.2:card:bAdge.Colour" resolved ∧ view.Addresses "bAdge.Colour" resolved := by
  intro colour badge plain extension view resolved
  have whole : ⟨.extension 0, extension⟩ ∈ view.members := List.mem_cons_of_mem _ List.mem_cons_self
  have declares : extension.Declares "bAdge" (some "Colour") badge (some colour) :=
    ⟨List.mem_cons_self, by decide, .some ⟨List.mem_cons_self, by decide⟩⟩
  have sameUrn : Text.fold "URN:acme:ext.2:card" = Text.fold extension.id := by decide
  have read : Reference.parse "bAdge.Colour" = .ok ⟨none, "bAdge", some "Colour"⟩ := rfl
  have found : view.resolveAttribute? ⟨none, "bAdge", some "Colour"⟩ = some resolved := by
    simp only [view, plain, extension, badge, colour, resolved]
    rfl
  obtain ⟨qualified, _, owner, _, first, part, _, _, _, bare⟩ :=
    addresses_of_declares (by decide) (by decide) whole declares (by decide) (by decide) sameUrn
  obtain ⟨reference, parsed, bound⟩ := bare.bound
  rw [← Except.ok.inj (read.symm.trans parsed), found] at bound
  exact ⟨qualified, Option.some.inj bound ▸ bare⟩

end View

end Scim
