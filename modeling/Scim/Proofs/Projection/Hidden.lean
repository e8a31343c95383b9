import Scim.Projection
import Scim.Proofs.Resource.Entries
import Scim.Proofs.View

/-!
# Projection and hidden attributes

Attributes that are never returned, and those that are only written, are hidden from clients, at the
top level, in an extension and inside of a complex attribute. `View.erase` takes all of them out of
a resource. What a client gets to see of a resource is what it gets to see of the erased one, so
that nothing is told about what is hidden, not even whether it is there.
-/

namespace Scim

/-! ### Erasing -/

namespace Attribute

mutual

/-- The value of a complex attribute without its hidden sub-attributes. -/
def eraseParts (definition : Attribute) : Json → Json
  | .array items => .array (eraseItems definition items)
  | .object entries =>
    .object (entries.filter fun entry => !(definition.sub? entry.1).any isHidden)
  | value => value

def eraseItems (definition : Attribute) : List Json → List Json
  | [] => []
  | item :: rest => eraseParts definition item :: eraseItems definition rest

end

/-- What is left of the value of an attribute; nothing at all if the attribute is hidden. -/
def erase (definition : Attribute) (value : Json) : Option Json :=
  if definition.isHidden then none
  else if definition.isComplex then some (definition.eraseParts value)
  else some value

end Attribute

namespace Schema

def eraseEntry (schema : Schema) (entry : String × Json) : Option (String × Json) :=
  match schema.find? entry.1 with
  | some definition => (definition.erase entry.2).map (entry.1, ·)
  | none => some entry

/-- An object that holds attributes of a schema, without the hidden ones. -/
def erase (schema : Schema) (object : Object) : Object := object.filterMap schema.eraseEntry

end Schema

namespace View

def eraseEntry (view : View) (entry : String × Json) : Option (String × Json) :=
  match view.extensionFor? entry.1, entry.2 with
  | some extension, .object fields => some (entry.1, .object (extension.schema.erase fields))
  | some _, _ => some entry
  | none, _ => view.base.eraseEntry entry

/-- A resource without anything that is hidden. -/
def erase (view : View) : Json → Json
  | .object entries => .object (entries.filterMap view.eraseEntry)
  | value => value

end View

/-! ### Names in a resource -/

/-- Some key in the value of a complex attribute, or in an element of it, names the sub-attribute.
-/
inductive Attribute.Names (definition : Attribute) : Json → Attribute → Prop
  | entry {entries : Object} {key : String} {value : Json} {sub : Attribute} :
    (key, value) ∈ entries → definition.sub? key = some sub → Names definition (.object entries) sub
  | item {items : List Json} {item : Json} {sub : Attribute} :
    item ∈ items → Names definition item sub → Names definition (.array items) sub

/-- Some key of an object names the attribute, or some key in the value of an attribute the
sub-attribute. -/
inductive Schema.Names (schema : Schema) (object : Object) : Attribute → Prop
  | whole {key : String} {value : Json} {definition : Attribute} :
    (key, value) ∈ object → schema.find? key = some definition → Names schema object definition
  | part {key : String} {value : Json} {definition sub : Attribute} :
    (key, value) ∈ object → schema.find? key = some definition → definition.Names value sub →
      Names schema object sub

/-- Some key of a resource, at the top level, in an extension or in the value of an attribute there,
names the attribute or sub-attribute. -/
inductive View.Names (view : View) (resource : Object) : Attribute → Prop
  | base {definition : Attribute} :
    view.base.Names resource definition → Names view resource definition
  | extension {urn : String} {fields : Object} {member : Member} {definition : Attribute} :
    (urn, .object fields) ∈ resource → view.extensionFor? urn = some member →
      member.schema.Names fields definition → Names view resource definition

/-! ### Complex values -/

section Complex

variable {definition : Attribute} {shows : Attribute → Bool}

mutual

/-- Hidden sub-attributes do not show. -/
theorem projectComplex_eraseParts (conceals : ∀ sub, sub.isHidden = true → shows sub = false) :
    ∀ value, projectComplex definition shows (definition.eraseParts value) =
      projectComplex definition shows value
  | .array items => by
    simp only [Attribute.eraseParts, projectComplex, projectItems_eraseItems conceals items]
  | .object entries => by
    simp only [Attribute.eraseParts, projectComplex, List.filterMap_filter]
    congr 2
    refine List.filterMap_congr fun entry _ => ?_
    -- An entry that has been erased would not have been shown.
    cases found : definition.sub? entry.1 with
    | none => rfl
    | some sub =>
      cases hidden : sub.isHidden with
      | false => simp [hidden]
      | true => simp [hidden, conceals sub hidden]
  | .null => rfl
  | .bool _ => rfl
  | .number _ => rfl
  | .string _ => rfl

theorem projectItems_eraseItems (conceals : ∀ sub, sub.isHidden = true → shows sub = false) :
    ∀ items, projectItems definition shows (definition.eraseItems items) =
      projectItems definition shows items
  | [] => rfl
  | item :: rest => by
    simp only [Attribute.eraseItems, projectItems, projectComplex_eraseParts conceals item,
      projectItems_eraseItems conceals rest]

end

mutual

/-- Where something is shown there is something. -/
theorem isPresent_of_projectComplex :
    ∀ value, (projectComplex definition shows value).isPresent = true → value.isPresent = true
  | .array items, present => by
    rw [projectComplex, Json.isPresent] at present
    rw [Json.isPresent]
    exact isPresent_of_projectItems items present
  | .object entries, present => by
    rw [projectComplex, Json.isPresent_object_iff] at present
    obtain ⟨shown, member, _⟩ := present
    obtain ⟨entry, inEntries, made⟩ := List.mem_filterMap.mp (Object.mem_ofEntries member)
    obtain ⟨sub, _, made⟩ := Option.bind_eq_some_iff.mp made
    split at made
    next showsEntry =>
      have entryPresent := (Bool.and_eq_true_iff.mp showsEntry).2
      exact Json.isPresent_object_iff.mpr ⟨entry, inEntries, entryPresent⟩
    · cases made
  | .null, present => present
  | .bool _, present => present
  | .number _, present => present
  | .string _, present => present

theorem isPresent_of_projectItems :
    ∀ items, Json.anyItemPresent (projectItems definition shows items) = true →
      Json.anyItemPresent items = true
  | [], present => present
  | item :: rest, present => by
    rw [Json.anyItemPresent, Bool.or_eq_true]
    simp only [projectItems] at present
    split at present
    next itemShown => exact .inl (isPresent_of_projectComplex item itemShown)
    · exact .inr (isPresent_of_projectItems rest present)

end

mutual

/-- The projection of a complex value names sub-attributes that are shown, and no others. -/
theorem shows_of_names {sub : Attribute} :
    ∀ value, definition.Names (projectComplex definition shows value) sub → shows sub = true
  | .array items, names => by
    rw [projectComplex] at names
    cases names with
    | item member names => exact shows_of_names_item items member names
  | .object entries, names => by
    rw [projectComplex] at names
    cases names with
    | entry member found =>
      obtain ⟨entry, _, made⟩ := List.mem_filterMap.mp (Object.mem_ofEntries member)
      obtain ⟨shown, foundShown, made⟩ := Option.bind_eq_some_iff.mp made
      split at made
      next showsEntry =>
        cases made
        -- The key is the declared name of what is shown, so it is found under it again.
        have again : definition.sub? shown.name = some shown := Attribute.find?_again foundShown
        rw [found] at again
        cases again
        exact (Bool.and_eq_true_iff.mp showsEntry).1
      · cases made
  | .null, names => nomatch names
  | .bool _, names => nomatch names
  | .number _, names => nomatch names
  | .string _, names => nomatch names

theorem shows_of_names_item {sub : Attribute} :
    ∀ items, ∀ {item : Json}, item ∈ projectItems definition shows items →
      definition.Names item sub → shows sub = true
  | [], _, member, _ => nomatch member
  | first :: rest, item, member, names => by
    simp only [projectItems] at member
    split at member
    · rcases List.mem_cons.mp member with rfl | behind
      · exact shows_of_names first names
      · exact shows_of_names_item rest behind names
    · exact shows_of_names_item rest member names

end

end Complex

/-! ### Attributes -/

section Attributes

variable {projection : Projection} {member : Member} {definition : Attribute}

theorem showsSub_of_isHidden (visible : Visibility) (included excluded : Mentions) {sub : Attribute}
    (hidden : sub.isHidden = true) : showsSub visible included excluded sub = false := by
  simp [showsSub, hidden]

/-- Of a complex attribute the shown part decides whether it is shown: it need not be asked whether
the whole value holds anything. -/
theorem value?_of_isComplex (complex : definition.isComplex = true) (shown : definition.isHidden = false)
    (value : Json) :
    let included := Mentions.ofSelected projection.included member definition
    let excluded := Mentions.ofSelected projection.excluded member definition
    let visible := visibility definition.returned projection.asks included excluded
    let projected := projectComplex definition (showsSub visible included excluded) value
    projection.value? member definition value =
      if visible = .none then none else if projected.isPresent then some projected else none := by
  intro included excluded visible projected
  have unfolded : projection.value? member definition value =
      if !value.isPresent then none
      else if visible = .none then none
      else if projected.isPresent then some projected
      else none := by
    simp only [Projection.value?, shown, complex, Bool.false_or, Bool.not_true, Bool.false_eq_true,
      if_false]
    rfl
  rw [unfolded]
  cases present : value.isPresent with
  | true => rfl
  | false =>
    have nothing : projected.isPresent = false := by
      refine Bool.eq_false_iff.mpr fun some => ?_
      rw [isPresent_of_projectComplex value some] at present
      cases present
    simp [nothing]

/-- What is shown of a value is what is shown of the rest of it. -/
theorem value?_erase (projection : Projection) (member : Member) (definition : Attribute)
    (value : Json) :
    (definition.erase value).bind (projection.value? member definition) =
      projection.value? member definition value := by
  unfold Attribute.erase
  cases hidden : definition.isHidden with
  | true => simp [Projection.value?, hidden]
  | false =>
    cases complex : definition.isComplex with
    | false => rfl
    | true =>
      simp only [Bool.false_eq_true, if_false, if_true, Option.bind_some]
      rw [value?_of_isComplex complex hidden, value?_of_isComplex complex hidden,
        projectComplex_eraseParts fun sub => showsSub_of_isHidden _ _ _]

theorem entries_erase (object : Object) :
    projection.entries member (member.schema.erase object) = projection.entries member object := by
  unfold Projection.entries Schema.erase
  rw [List.filterMap_filterMap]
  congr 1
  refine List.filterMap_congr fun entry _ => ?_
  unfold Schema.eraseEntry
  cases found : member.schema.find? entry.1 with
  | none => simp [found]
  | some definition =>
    have same := value?_erase projection member definition entry.2
    cases erased : definition.erase entry.2 with
    | none =>
      rw [erased, Option.bind_none] at same
      simp only [erased, ← same, Option.map_none, Option.bind_none, Option.bind_eq_bind,
        Option.bind_some]
    | some value =>
      rw [erased, Option.bind_some] at same
      simp only [erased, found, ← same, Option.map_some, Option.bind_eq_bind, Option.bind_some]

/-- What is shown of an attribute is not hidden, and neither is anything it names. -/
theorem isHidden_of_value? {schema : Schema} (valid : schema.validate = .ok ())
    (declared : definition ∈ schema.attributes) {value shown : Json}
    (projected : projection.value? member definition value = some shown) :
    definition.isHidden = false ∧ ∀ sub, definition.Names shown sub → sub.isHidden = false := by
  have notHidden : definition.isHidden = false := by
    refine Bool.eq_false_iff.mpr fun hidden => ?_
    simp [Projection.value?, hidden] at projected
  refine ⟨notHidden, fun sub names => ?_⟩
  cases complex : definition.isComplex with
  | true =>
    rw [value?_of_isComplex complex notHidden] at projected
    split at projected
    · cases projected
    · split at projected
      · cases projected
        have shows := shows_of_names value names
        refine Bool.eq_false_iff.mpr fun hidden => ?_
        rw [showsSub_of_isHidden _ _ _ hidden] at shows
        cases shows
      · cases projected
  | false =>
    -- An attribute that is not complex has no sub-attributes that could be named.
    have simple : ∀ shown sub, ¬ definition.Names shown sub := by
      intro shown sub names
      induction names with
      | entry _ found =>
        have member := (Attribute.find?_eq_some found).1
        rw [Schema.isComplex_of_mem_subAttributes valid declared member] at complex
        cases complex
      | item _ _ ih => exact ih
    exact absurd names (simple shown sub)

/-- An entry shows a value of an attribute of a schema, under its declared name. -/
def Projection.Shows (projection : Projection) (schema : Schema) (entry : String × Json) : Prop :=
  ∃ definition ∈ schema.attributes, entry.1 = definition.name ∧
    ∃ member value, projection.value? member definition value = some entry.2

/-- Entries that show attributes name no hidden ones. -/
theorem isHidden_of_names (projection : Projection) {schema : Schema}
    (valid : schema.validate = .ok ()) {output : Object}
    (shown : ∀ entry ∈ output, (schema.find? entry.1).isSome = true → projection.Shows schema entry)
    (names : schema.Names output definition) : definition.isHidden = false := by
  -- A key that names an attribute is the declared name of the attribute that is shown under it.
  have projected {key : String} {value : Json} {named : Attribute} (inOutput : (key, value) ∈ output)
      (found : schema.find? key = some named) :
      named.isHidden = false ∧ ∀ sub, named.Names value sub → sub.isHidden = false := by
    obtain ⟨shownHere, declared, sameName, _, _, projected⟩ := shown _ inOutput (by simp [found])
    have isNamed := Schema.find?_name valid declared
    rw [← sameName, found] at isNamed
    cases isNamed
    exact isHidden_of_value? valid declared projected
  cases names with
  | whole inOutput found => exact (projected inOutput found).1
  | part inOutput found names => exact (projected inOutput found).2 _ names

theorem shows_of_mem_entries {object : Object} {entry : String × Json}
    (member_mem : entry ∈ projection.entries member object) :
    projection.Shows member.schema entry := by
  obtain ⟨stored, _, made⟩ := List.mem_filterMap.mp (Object.mem_ofEntries member_mem)
  obtain ⟨definition, found, made⟩ := Option.bind_eq_some_iff.mp made
  obtain ⟨shown, projected, made⟩ := Option.bind_eq_some_iff.mp made
  cases made
  exact ⟨definition, (Attribute.find?_eq_some found).1, rfl, member, stored.2, projected⟩

end Attributes

/-! ### Resources -/

section Resources

variable {view : View} {projection : Projection}

/-- What is shown of an entry is what is shown of the rest of it. -/
theorem entry?_eraseEntry (wellFormed : view.WellFormed) (ofView : projection.view = view)
    (entry : String × Json) :
    ((view.eraseEntry entry).bind fun left => projection.entry? left.1 left.2) =
      projection.entry? entry.1 entry.2 := by
  obtain ⟨key, value⟩ := entry
  subst ofView
  unfold View.eraseEntry
  cases found : projection.view.extensionFor? key with
  | some extension =>
    cases value with
    | object fields =>
      have notSchemas := (wellFormed.free_of_extensionFor? found).1
      simp only [Option.bind_some, Projection.entry?, notSchemas, found, entries_erase,
        Bool.false_eq_true, if_false]
    | _ => rfl
  | none =>
    simp only [Schema.eraseEntry]
    cases named : projection.view.base.find? key with
    | none => rfl
    | some definition =>
      have notSchemas := (wellFormed.free_of_base_find? named).1
      have same := value?_erase projection projection.view.baseMember definition value
      cases erased : definition.erase value with
      | none =>
        rw [erased, Option.bind_none] at same
        simp [erased, Projection.entry?, notSchemas, found, named, ← same]
      | some left =>
        rw [erased, Option.bind_some] at same
        simp [erased, Projection.entry?, notSchemas, found, named, ← same]

/-- What is shown of an entry is the list of schemas, the shown part of an extension, or the value of
an attribute of the base; no key stands for two of them. -/
theorem entry?_eq_some_iff (wellFormed : projection.view.WellFormed) {key : String} {value : Json}
    {entry : String × Json} :
    projection.entry? key value = some entry ↔
      (Text.sameName key "schemas" = true ∧ entry = (key, value)) ∨
      (∃ extension fields, projection.view.extensionFor? key = some extension ∧
        value = .object fields ∧ projection.entries extension fields ≠ [] ∧
        entry = (extension.schema.id, .object (projection.entries extension fields))) ∨
      ∃ definition, projection.view.base.find? key = some definition ∧
        ∃ shown, projection.value? projection.view.baseMember definition value = some shown ∧
          entry = (definition.name, shown) := by
  unfold Projection.entry?
  constructor
  · intro made
    split at made
    next isSchemas =>
      cases made
      exact .inl ⟨isSchemas, rfl⟩
    next =>
      split at made
      next extension found =>
        split at made
        next fields =>
          simp only [Option.ite_none_left_eq_some, Option.some.injEq] at made
          obtain ⟨notEmpty, rfl⟩ := made
          exact .inr (.inl ⟨extension, fields, found, rfl, mt List.isEmpty_iff.mpr notEmpty, rfl⟩)
        · cases made
      next =>
        obtain ⟨definition, found, made⟩ := Option.bind_eq_some_iff.mp made
        obtain ⟨shown, projected, made⟩ := Option.bind_eq_some_iff.mp made
        cases made
        exact .inr (.inr ⟨definition, found, shown, projected, rfl⟩)
  · rintro (⟨isSchemas, rfl⟩ | ⟨extension, fields, found, rfl, notEmpty, rfl⟩ |
      ⟨definition, found, shown, projected, rfl⟩)
    · rw [if_pos isSchemas]
    · have notSchemas := (wellFormed.free_of_extensionFor? found).1
      simp [notSchemas, found, notEmpty]
    · obtain ⟨notSchemas, notExtension⟩ := wellFormed.free_of_base_find? found
      simp [notSchemas, notExtension, found, projected]

/-- The shown entries of a resource name no hidden attribute. -/
theorem isHidden_of_names_resource (projection : Projection)
    (wellFormed : projection.view.WellFormed) {object : Object}
    {definition : Attribute}
    (names : projection.view.Names
      (Object.ofEntries (object.filterMap fun entry => projection.entry? entry.1 entry.2)) definition) :
    definition.isHidden = false := by
  -- Where the shown entries come from, by the key that they stand under.
  have made {entry : String × Json} (inOutput : entry ∈
      Object.ofEntries (object.filterMap fun entry => projection.entry? entry.1 entry.2)) :
      ∃ key value, projection.entry? key value = some entry := by
    obtain ⟨stored, _, shown⟩ := List.mem_filterMap.mp (Object.mem_ofEntries inOutput)
    exact ⟨stored.1, stored.2, shown⟩
  cases names with
  | base names =>
    have valid := wellFormed.valid projection.view.baseMember List.mem_cons_self
    refine isHidden_of_names projection valid (fun entry inOutput named => ?_) names
    obtain ⟨key, value, shown⟩ := made inOutput
    rcases (entry?_eq_some_iff wellFormed).mp shown with
      ⟨isSchemas, rfl⟩ | ⟨extension, _, found, _, _, rfl⟩ | ⟨definition, found, _, projected, rfl⟩
    · obtain ⟨definition, found⟩ := Option.isSome_iff_exists.mp named
      rw [(wellFormed.free_of_base_find? found).1] at isSchemas
      cases isSchemas
    · have free := (wellFormed.free_of_extensionFor? found).2
      have sameKey : projection.view.base.find? extension.schema.id = projection.view.base.find? key :=
        Attribute.find?_congr (View.fold_id_of_extensionFor? found)
      rw [View.baseMember, sameKey, free] at named
      cases named
    · exact ⟨definition, (Attribute.find?_eq_some found).1, rfl, _, value, projected⟩
  | @extension urn fields member _ inOutput found names =>
    have member_mem := View.mem_members_of_mem_extensionMembers (View.extensionFor?_eq_some found)
    have free := wellFormed.free_of_extensionFor? found
    obtain ⟨key, value, shown⟩ := made inOutput
    rcases (entry?_eq_some_iff wellFormed).mp shown with
      ⟨isSchemas, made⟩ | ⟨other, _, foundOther, _, _, made⟩ | ⟨named, foundNamed, _, _, made⟩
    · cases made
      rw [free.1] at isSchemas
      cases isSchemas
    · cases made
      -- Only one extension has the URN, so its are the attributes that are shown.
      have other_mem := View.mem_members_of_mem_extensionMembers (View.extensionFor?_eq_some foundOther)
      obtain rfl := wellFormed.eq_of_fold_id_eq member_mem other_mem (View.fold_id_of_extensionFor? found)
      have valid := wellFormed.valid member member_mem
      exact isHidden_of_names projection valid (fun entry inEntries _ => shows_of_mem_entries inEntries) names
    · cases made
      have again : projection.view.base.find? named.name = some named :=
        Attribute.find?_again foundNamed
      rw [free.2] at again
      cases again

end Resources

/-- **Projection tells nothing about hidden attributes**: the projection of a resource is that of the
resource without them, or fails in the same way, and resources that differ only in what is hidden
are projected alike. No key in a projected object names a hidden attribute or sub-attribute. -/
theorem project_conceals (selection : Selection) (view : View) (resource : Json)
    (wellFormed : view.WellFormed) :
    project selection view resource = project selection view (view.erase resource) ∧
    (∀ other, view.erase other = view.erase resource →
      project selection view other = project selection view resource) ∧
    ∀ output, project selection view resource = .ok (.object output) →
      ∀ definition, view.Names output definition → definition.isHidden = false := by
  have erased (resource : Json) :
      project selection view resource = project selection view (view.erase resource) := by
    unfold project
    split
    · rfl
    · cases resource with
      | object object =>
        simp only [View.erase, List.filterMap_filterMap]
        congr 3
        exact List.filterMap_congr fun entry _ => (entry?_eraseEntry wellFormed rfl entry).symm
      | _ => rfl
  refine ⟨erased resource, fun other same => ?_, fun output projected definition names => ?_⟩
  · rw [erased other, erased resource, same]
  · unfold project at projected
    split at projected
    · cases projected
    · cases resource with
      | object object =>
        cases projected
        exact isHidden_of_names_resource ⟨view, _, _, _⟩ wellFormed names
      | _ => cases projected

/-- A hidden value is told neither by the element nor by the extension of which it is the only
content. -/
theorem project_conceals_only_content :
    let view := View.ofSchemas
      { id := "urn:a"
        attributes :=
          [{ name := "secret", returned := .never },
            { name := "keys", type := .complex, multiValued := true
              subAttributes := [{ name := "pin", mutability := .writeOnly }, { name := "label" }] }] }
      [{ id := "urn:b", attributes := [{ name := "token", returned := .never }] }]
    let resource : Json := .object
      [("keys", .array [.object [("pin", .string "1")],
          .object [("PIN", .string "2"), ("label", .string "x")]]),
        ("secret", .string "s"), ("urn:b", .object [("token", .string "t")])]
    view.erase resource = .object
        [("keys", .array [.object [], .object [("label", .string "x")]]), ("urn:b", .object [])] ∧
      project {} view resource =
        .ok (.object [("keys", .array [.object [("label", .string "x")]])]) ∧
      ∀ other, view.erase other = view.erase resource →
        project {} view other = project {} view resource := by
  intro view resource
  exact ⟨rfl, rfl, (project_conceals {} view resource (by decide)).2.1⟩

end Scim
