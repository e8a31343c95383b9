import Scim.Projection
import Scim.Proofs.Resource.Entries
import Scim.Proofs.View

/-!
# Projecting what has been projected

What a client gets to see is all that it gets to see of that. An entry that is shown stands under the
name of its declaration, which finds the same declaration again, and has been cut down to what the same
selection lets through: the values in it are present, and so is what is left of them. This holds of
any view and any resource, also of names that stand under several spellings, of which one is left.
-/

namespace Scim

/-! ### Entries that are kept -/

namespace Object

variable {object : Object}

/-- Entries that are left by a cut are cut no further, if the cut leaves what it has left. -/
theorem ofEntries_filterMap_again {cut : String × Json → Option (String × Json)}
    (settles : ∀ entry left : String × Json, cut entry = some left → cut left = some left)
    (object : Object) :
    ofEntries ((ofEntries (object.filterMap cut)).filterMap cut) = ofEntries (object.filterMap cut) := by
  have kept : ∀ entry ∈ ofEntries (object.filterMap cut), cut entry = some entry := by
    intro entry member
    obtain ⟨stored, _, made⟩ := List.mem_filterMap.mp (mem_ofEntries member)
    exact settles stored entry made
  rw [List.filterMap_congr kept, List.filterMap_some, ofEntries_of_sorted (sorted_ofEntries _)]

end Object

/-! ### Values -/

section Values

variable {definition : Attribute} {shows : Attribute → Bool}

mutual

/-- What is shown of a complex value is shown as a whole. -/
theorem projectComplex_again :
    ∀ value, projectComplex definition shows (projectComplex definition shows value) =
      projectComplex definition shows value
  | .array items => congrArg Json.array (projectItems_again items)
  | .object entries => by
    refine congrArg Json.object (Object.ofEntries_filterMap_again (fun entry left made => ?_) entries)
    obtain ⟨sub, named, made⟩ := Option.bind_eq_some_iff.mp made
    simp only [Option.ite_none_right_eq_some, Option.some.injEq] at made
    obtain ⟨shown, rfl⟩ := made
    -- The declared name, under which the value is left, finds the sub-attribute again.
    have again : definition.sub? sub.name = some sub := Attribute.find?_again named
    simpa [again] using shown
  | .null | .bool _ | .number _ | .string _ => rfl

theorem projectItems_again :
    ∀ items, projectItems definition shows (projectItems definition shows items) =
      projectItems definition shows items
  | [] => rfl
  | item :: rest => by
    have head := projectComplex_again item
    have tail := projectItems_again rest
    simp only [projectItems]
    split
    next present => simp only [projectItems, head, present, if_true, tail]
    next => exact tail

end

end Values

/-! ### Entries of a resource -/

namespace Projection

variable {projection : Projection} {member : Member} {definition : Attribute} {value shown : Json}

theorem value?_again (made : projection.value? member definition value = some shown) :
    projection.value? member definition shown = some shown := by
  -- What decides on the attribute is asked again, and answered in the same way.
  unfold value? at made ⊢
  simp only [Option.ite_none_left_eq_some] at made ⊢
  obtain ⟨returned, visible, made⟩ := made
  obtain ⟨readable, present⟩ := by simpa using returned
  split at made
  next simple =>
    cases made
    exact ⟨returned, visible, if_pos simple⟩
  next complex =>
    simp only [Option.ite_none_right_eq_some, Option.some.injEq] at made
    obtain ⟨left, rfl⟩ := made
    refine ⟨by simp [readable, left], visible, ?_⟩
    rw [if_neg complex, projectComplex_again, if_pos left]

theorem entries_again (projection : Projection) (member : Member) (object : Object) :
    projection.entries member (projection.entries member object) = projection.entries member object := by
  refine Object.ofEntries_filterMap_again (fun entry left made => ?_) object
  obtain ⟨definition, found, made⟩ := Option.bind_eq_some_iff.mp made
  obtain ⟨shown, projected, made⟩ := Option.bind_eq_some_iff.mp made
  cases made
  have again : member.schema.find? definition.name = some definition := Attribute.find?_again found
  simp [again, value?_again projected]

/-- An entry that is shown is neither the list of schemas nor of an extension unless it has been so
before, as its key is the same up to case. -/
theorem entry?_again {key : String} {entry : String × Json} (made : projection.entry? key value = some entry) :
    projection.entry? entry.1 entry.2 = some entry := by
  unfold entry? at made
  -- The key names the list of schemas, an extension, or an attribute of the base.
  split at made
  next isSchemas =>
    cases made
    exact if_pos isSchemas
  next notSchemas =>
    split at made
    next extension found =>
      split at made
      next fields =>
        simp only [Option.ite_none_left_eq_some, Option.some.injEq] at made
        obtain ⟨someShown, rfl⟩ := made
        have same := View.fold_id_of_extensionFor? found
        have notSchemasToo : ¬Text.sameName extension.schema.id "schemas" = true := by
          rwa [Text.sameName, same]
        unfold entry?
        rw [if_neg notSchemasToo, View.extensionFor?_congr same, found]
        simp only [entries_again, if_neg someShown]
      · cases made
    next noExtension =>
      obtain ⟨definition, found, made⟩ := Option.bind_eq_some_iff.mp made
      obtain ⟨shown, projected, made⟩ := Option.bind_eq_some_iff.mp made
      cases made
      have same := (Attribute.find?_eq_some found).2
      have notSchemasToo : ¬Text.sameName definition.name "schemas" = true := by
        rwa [Text.sameName, same]
      have again : projection.view.base.find? definition.name = some definition :=
        Attribute.find?_again found
      unfold entry?
      rw [if_neg notSchemasToo, View.extensionFor?_congr same, noExtension]
      simp [again, value?_again projected]

end Projection

/-- **Projection is idempotent**: what a client gets to see of a resource, whatever it asks for or
excludes, it gets to see unchanged if it is projected once more. -/
theorem project_again {selection : Selection} {view : View} {resource output : Json}
    (projected : project selection view resource = .ok output) :
    project selection view output = .ok output := by
  unfold project at projected
  split at projected
  · cases projected
  next oneList =>
    cases resource with
    | object object =>
      cases projected
      have settles : ∀ entry left : String × Json,
          Projection.entry? (selection.projection view) entry.1 entry.2 = some left →
            Projection.entry? (selection.projection view) left.1 left.2 = some left :=
        fun _ _ made => Projection.entry?_again made
      have again := Object.ofEntries_filterMap_again settles object
      exact (if_neg oneList).trans (congrArg (fun shown => Except.ok (Json.object shown)) again)
    | _ =>
      cases projected
      exact if_neg oneList

/-- Of two spellings of one name the second one is left, in small letters, and of nested lists what is
seen in them. -/
theorem project_again_spellings :
    let emails : Attribute :=
      { name := "emails", type := .complex, multiValued := true
        subAttributes := [{ name := "value" }, { name := "label", returned := .request }] }
    let view := View.ofSchemas { id := "urn:a", attributes := [emails, { name := "title" }] }
      [{ id := "urn:b", attributes := [{ name := "pin" }, { name := "token", returned := .never }] }]
    let selection : Selection := { excluded := [⟨none, "title", none⟩] }
    let nested : Json := .array [.object [("LABEL", .string "x")], .object [("Value", .string "a")]]
    let resource : Json := .object
      [("EMAILS", .string "old"), ("SCHEMAS", .array []), ("emails", .array [nested, .string ""]),
        ("schemas", .null), ("title", .string "t"),
        ("urn:B", .object [("Pin", .string "1"), ("token", .string "s")])]
    let output : Json := .object
      [("SCHEMAS", .array []), ("emails", .array [.array [.object [("value", .string "a")]]]),
        ("schemas", .null), ("urn:b", .object [("pin", .string "1")])]
    project selection view resource = .ok output ∧ project selection view output = .ok output := by
  intro emails view selection nested resource output
  have projected : project selection view resource = .ok output := by
    dsimp +zetaDelta only
    rfl
  exact ⟨projected, project_again projected⟩

end Scim
