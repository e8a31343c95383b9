import Scim.Proofs.Projection.Hidden
import Scim.Proofs.Resource.Distinct

/-!
# What a selection shows

Whether a client sees an attribute depends on how it is returned and on what the lists of the
selection name: the attribute, one of its sub-attributes, or the extension that it belongs to. The
conditions are stated here on the lists themselves. A projected resource holds the entries that they
call for, and no others.
-/

namespace Scim

/-! ### What a selection calls for -/

namespace View

variable (view : View) (references : List Reference) (member : Member) (definition : Attribute)

/-- A list names an attribute as a whole, or the extension that the attribute belongs to. -/
def NamesWhole : Prop :=
  ∃ reference ∈ references, view.resolve? reference = some (.extension member) ∨
    view.resolve? reference = some (.definition ⟨member, definition, none⟩)

/-- A list names a sub-attribute of an attribute. -/
def NamesSub (sub : Attribute) : Prop :=
  ∃ reference ∈ references,
    view.resolve? reference = some (.definition ⟨member, definition, some sub⟩)

end View

namespace Selection

variable (selection : Selection) (view : View) (member : Member) (definition : Attribute)

/-- An attribute is to be seen, be it in some of its sub-attributes only. -/
inductive Sees : Prop
  | always : definition.returned = .always → Sees
  | whole : view.NamesWhole selection.included member definition → Sees
  | part {sub : Attribute} : view.NamesSub selection.included member definition sub → Sees
  | default : selection.included = [] → definition.returned = .default →
      ¬view.NamesWhole selection.excluded member definition → Sees

/-- An attribute is to be seen with all its sub-attributes that are returned by default. -/
inductive SeesWhole : Prop
  | named : view.NamesWhole selection.included member definition → SeesWhole
  | always : definition.returned = .always →
      (∀ sub, ¬view.NamesSub selection.included member definition sub) → SeesWhole
  | default : selection.included = [] → definition.returned = .default →
      ¬view.NamesWhole selection.excluded member definition → SeesWhole

/-- A sub-attribute is to be seen wherever its attribute is. -/
structure SeesSub (sub : Attribute) : Prop where
  returned : sub.returned ≠ .never
  readable : sub.mutability ≠ .writeOnly
  seen : sub.returned = .always ∨ view.NamesSub selection.included member definition sub ∨
    selection.SeesWhole view member definition ∧ sub.returned = .default ∧
      ¬view.NamesSub selection.excluded member definition sub

end Selection

/-- One value is another one without the sub-attributes that do not show. An element of which nothing
is left is left out. -/
inductive Attribute.Cuts (definition : Attribute) (shows : Attribute → Prop) : Json → Json → Prop
  | object {fields cut : Object} : cut.Sorted →
      (∀ entry, entry ∈ cut ↔ ∃ sub ∈ definition.subAttributes, entry.1 = sub.name ∧ shows sub ∧
        fields.attribute? sub.name = some entry.2 ∧ entry.2.isPresent = true) →
      Cuts definition shows (.object fields) (.object cut)
  | array {items cuts : List Json} : List.Forall₂ (Cuts definition shows) items cuts →
      Cuts definition shows (.array items) (.array (cuts.filter Json.isPresent))
  | scalar {value : Json} : value.isScalar = true → Cuts definition shows value value

namespace Selection

variable (selection : Selection) (view : View) (member : Member) (definition : Attribute)

/-- A stored value of an attribute is shown as another value: a simple one as it is, a complex one as
far as its sub-attributes are to be seen. -/
structure Shows (stored shown : Json) : Prop where
  present : stored.isPresent = true
  returned : definition.returned ≠ .never
  readable : definition.mutability ≠ .writeOnly
  seen : selection.Sees view member definition
  simple : definition.isComplex = false → shown = stored
  complex : definition.isComplex = true →
    definition.Cuts (selection.SeesSub view member definition) stored shown
  remains : shown.isPresent = true

/-- An entry shows an attribute of a schema under its declared name. -/
def ShowsEntry (object : Object) (entry : String × Json) : Prop :=
  ∃ definition ∈ member.schema.attributes, entry.1 = definition.name ∧
    ∃ stored, object.attribute? definition.name = some stored ∧
      selection.Shows view member definition stored entry.2

/-- An entry of a resource is shown. -/
inductive ShowsIn (resource : Object) : String × Json → Prop
  | schemas {entry : String × Json} : Text.sameName entry.1 "schemas" = true → entry ∈ resource →
      ShowsIn resource entry
  | base {entry : String × Json} : selection.ShowsEntry view view.baseMember resource entry →
      ShowsIn resource entry
  | extension {member : Member} {fields shown : Object} : member ∈ view.extensionMembers →
      resource.attribute? member.schema.id = some (.object fields) → shown.Sorted → shown ≠ [] →
      (∀ entry, entry ∈ shown ↔ selection.ShowsEntry view member fields entry) →
      ShowsIn resource (member.schema.id, .object shown)

end Selection

/-! ### What the lists mention -/

/-- How the references of a list mention an attribute. -/
abbrev View.mentions (view : View) (references : List Reference) (member : Member)
    (definition : Attribute) : Mentions :=
  Mentions.ofSelected (Selected.ofReferences view references) member definition

section Mentions

variable {view : View} {references : List Reference} {member : Member} {definition : Attribute}

theorem mem_ofReferences_iff {entry : Selected} :
    entry ∈ Selected.ofReferences view references ↔ ∃ reference ∈ references,
      (∃ member, view.resolve? reference = some (.extension member) ∧ entry = .extension member.place) ∨
      ∃ resolved, view.resolve? reference = some (.definition resolved) ∧
        entry = .definition resolved.member.place resolved.definition resolved.sub := by
  unfold Selected.ofReferences
  rw [List.mem_filterMap]
  refine exists_congr fun reference => and_congr_right fun _ => ?_
  cases bound : view.resolve? reference with
  | none => simp
  | some resolution => cases resolution <;> simp [eq_comm]

/-- The entries of a list that mention an attribute are those that name it, its extension or one of
its sub-attributes. -/
theorem exists_mentions_iff (valid : member.schema.validate = .ok ())
    (member_mem : member ∈ view.members) (declared : definition ∈ member.schema.attributes)
    (references : List Reference) (sub : Option Attribute) :
    (∃ entry ∈ Selected.ofReferences view references,
      entry.mentions member definition = true ∧ entry.sub? = sub) ↔
    ∃ reference ∈ references,
      (sub = none ∧ view.resolve? reference = some (.extension member)) ∨
      view.resolve? reference = some (.definition ⟨member, definition, sub⟩) := by
  constructor
  · rintro ⟨entry, entry_mem, mentions, rfl⟩
    obtain ⟨reference, listed, ⟨other, bound, rfl⟩ | ⟨resolved, bound, rfl⟩⟩ :=
      mem_ofReferences_iff.mp entry_mem
    · have other_mem :=
        View.mem_members_of_mem_extensionMembers (View.resolve?_eq_extension bound)
      obtain rfl := View.eq_of_place_eq other_mem member_mem (beq_iff_eq.mp mentions)
      exact ⟨reference, listed, .inl ⟨rfl, bound⟩⟩
    · obtain ⟨samePlace, sameName⟩ := Bool.and_eq_true_iff.mp mentions
      obtain ⟨other_mem, declaredOther⟩ :=
        View.resolveAttribute?_eq_some (View.resolve?_eq_definition bound)
      obtain ⟨other, named, sub⟩ := resolved
      obtain rfl : other = member :=
        View.eq_of_place_eq other_mem member_mem (beq_iff_eq.mp samePlace)
      obtain rfl : named = definition := Schema.eq_of_fold_name_eq valid
        declaredOther declared (Text.sameName_iff.mp sameName)
      exact ⟨reference, listed, .inr bound⟩
  · rintro ⟨reference, listed, ⟨rfl, bound⟩ | bound⟩
    · refine ⟨_, mem_ofReferences_iff.mpr ⟨reference, listed, .inl ⟨_, bound, rfl⟩⟩, ?_, rfl⟩
      exact beq_self_eq_true member.place
    · refine ⟨_, mem_ofReferences_iff.mpr ⟨reference, listed, .inr ⟨_, bound, rfl⟩⟩, ?_, rfl⟩
      exact Bool.and_eq_true_iff.mpr ⟨beq_self_eq_true member.place, Text.sameName_refl _⟩

theorem whole_iff (valid : member.schema.validate = .ok ())
    (member_mem : member ∈ view.members) (declared : definition ∈ member.schema.attributes)
    (references : List Reference) :
    (view.mentions references member definition).whole = true ↔
      view.NamesWhole references member definition := by
  have mentioned := exists_mentions_iff valid member_mem declared references none
  simp only [true_and] at mentioned
  unfold View.NamesWhole
  rw [← mentioned]
  simp [Mentions.ofSelected]

theorem mem_subs_iff (valid : member.schema.validate = .ok ())
    (member_mem : member ∈ view.members) (declared : definition ∈ member.schema.attributes)
    {sub : Attribute} :
    sub ∈ (view.mentions references member definition).subs ↔
      view.NamesSub references member definition sub := by
  have mentioned := exists_mentions_iff valid member_mem declared references (some sub)
  simp only [reduceCtorEq, false_and, false_or] at mentioned
  unfold View.NamesSub
  rw [← mentioned]
  simp [Mentions.ofSelected, and_assoc]

/-- A sub-attribute is mentioned under its name only if it is named itself. -/
theorem includesSub_iff (valid : member.schema.validate = .ok ())
    (member_mem : member ∈ view.members) (declared : definition ∈ member.schema.attributes)
    {sub : Attribute} (declaredSub : sub ∈ definition.subAttributes) (references : List Reference) :
    (view.mentions references member definition).includesSub sub = true ↔
      view.NamesSub references member definition sub := by
  unfold Mentions.includesSub
  rw [List.any_eq_true]
  constructor
  · rintro ⟨named, named_mem, same⟩
    obtain ⟨reference, listed, bound⟩ := (mem_subs_iff valid member_mem declared).mp named_mem
    have isSub := View.resolveAttribute?_sub (View.resolve?_eq_definition bound)
    obtain ⟨_, _, found⟩ := Option.bind_eq_some_iff.mp isSub.symm
    have equal : some named = some sub :=
      calc some named
        _ = definition.sub? named.name := (Attribute.find?_again found).symm
        _ = definition.sub? sub.name := Attribute.find?_congr (Text.sameName_iff.mp same)
        _ = some sub := Schema.sub?_name valid declared declaredSub
    cases equal
    exact ⟨reference, listed, bound⟩
  · intro names
    exact ⟨sub, (mem_subs_iff valid member_mem declared).mpr names, Text.sameName_refl _⟩

end Mentions

/-! ### Visibility -/

section Visibility

variable {returned : Returned} {asks : Bool} {included excluded : Mentions}

theorem visibility_ne_none_iff :
    visibility returned asks included excluded ≠ .none ↔
      returned = .always ∨
      returned ≠ .never ∧ asks = true ∧ (included.whole = true ∨ included.subs ≠ []) ∨
      returned = .default ∧ asks = false ∧ excluded.whole = false := by
  -- Of the sub-attributes it matters only whether there are any.
  obtain ⟨whole, subs⟩ := included
  cases returned <;> cases asks <;> cases whole <;> cases subs <;>
    simp [visibility, visibility.asked]

theorem visibility_eq_whole_iff :
    visibility returned asks included excluded = .whole ↔
      returned = .always ∧ (included.whole = true ∨ included.subs = []) ∨
      (returned = .default ∨ returned = .request) ∧ asks = true ∧ included.whole = true ∨
      returned = .default ∧ asks = false ∧ excluded.whole = false := by
  obtain ⟨whole, subs⟩ := included
  cases returned <;> cases asks <;> cases whole <;> cases subs <;>
    simp [visibility, visibility.asked]

end Visibility

section Selections

variable {selection : Selection} {view : View} {member : Member} {definition : Attribute}

/-- How much of an attribute a selection makes visible. -/
abbrev Selection.visibility (selection : Selection) (view : View) (member : Member)
    (definition : Attribute) : Visibility :=
  Scim.visibility definition.returned (!selection.included.isEmpty)
    (view.mentions selection.included member definition)
    (view.mentions selection.excluded member definition)

/-- Whether a selection makes a sub-attribute visible. -/
abbrev Selection.showsSub (selection : Selection) (view : View) (member : Member)
    (definition : Attribute) : Attribute → Bool :=
  Scim.showsSub (selection.visibility view member definition)
    (view.mentions selection.included member definition)
    (view.mentions selection.excluded member definition)

theorem not_isEmpty_of_mem {references : List Reference} {reference : Reference}
    (listed : reference ∈ references) : (!references.isEmpty) = true := by
  simp [List.ne_nil_of_mem listed]

theorem sees_iff (selection : Selection) (valid : member.schema.validate = .ok ())
    (member_mem : member ∈ view.members)
    (declared : definition ∈ member.schema.attributes) (returned : definition.returned ≠ .never) :
    selection.visibility view member definition ≠ .none ↔ selection.Sees view member definition := by
  have whole (references : List Reference) :=
    whole_iff valid member_mem declared references
  rw [visibility_ne_none_iff]
  constructor
  · rintro (always | ⟨_, _, named | part⟩ | ⟨byDefault, empty, notExcluded⟩)
    · exact .always always
    · exact .whole ((whole _).mp named)
    · obtain ⟨sub, sub_mem⟩ := List.exists_mem_of_ne_nil _ part
      exact .part ((mem_subs_iff valid member_mem declared).mp sub_mem)
    · have notNamed := mt (whole _).mpr (Bool.eq_false_iff.mp notExcluded)
      exact .default (by simpa using empty) byDefault notNamed
  · intro sees
    cases sees with
    | always always => exact .inl always
    | whole names =>
      obtain ⟨_, listed, _⟩ := id names
      exact .inr (.inl ⟨returned, not_isEmpty_of_mem listed, .inl ((whole _).mpr names)⟩)
    | part names =>
      obtain ⟨_, listed, _⟩ := id names
      have sub_mem := (mem_subs_iff valid member_mem declared).mpr names
      exact .inr (.inl ⟨returned, not_isEmpty_of_mem listed, .inr (List.ne_nil_of_mem sub_mem)⟩)
    | default empty byDefault notNamed =>
      have notExcluded := Bool.eq_false_iff.mpr (mt (whole _).mp notNamed)
      exact .inr (.inr ⟨byDefault, by simp [empty], notExcluded⟩)

theorem seesWhole_iff (selection : Selection) (valid : member.schema.validate = .ok ())
    (member_mem : member ∈ view.members)
    (declared : definition ∈ member.schema.attributes) (returned : definition.returned ≠ .never) :
    selection.visibility view member definition = .whole ↔
      selection.SeesWhole view member definition := by
  have whole (references : List Reference) :=
    whole_iff valid member_mem declared references
  rw [visibility_eq_whole_iff]
  constructor
  · rintro (⟨always, named | noSubs⟩ | ⟨_, _, named⟩ | ⟨byDefault, empty, notExcluded⟩)
    · exact .named ((whole _).mp named)
    · refine .always always fun sub names => ?_
      have sub_mem := (mem_subs_iff valid member_mem declared).mpr names
      exact List.ne_nil_of_mem sub_mem noSubs
    · exact .named ((whole _).mp named)
    · have notNamed := mt (whole _).mpr (Bool.eq_false_iff.mp notExcluded)
      exact .default (by simpa using empty) byDefault notNamed
  · intro sees
    cases sees with
    | named names =>
      obtain ⟨_, listed, _⟩ := id names
      have asks := not_isEmpty_of_mem listed
      have named := (whole _).mpr names
      cases policy : definition.returned with
      | always => exact .inl ⟨rfl, .inl named⟩
      | never => exact absurd policy returned
      | default => exact .inr (.inl ⟨.inl rfl, asks, named⟩)
      | request => exact .inr (.inl ⟨.inr rfl, asks, named⟩)
    | always always noSubs =>
      refine .inl ⟨always, .inr (List.eq_nil_iff_forall_not_mem.mpr fun sub sub_mem => ?_)⟩
      exact noSubs sub ((mem_subs_iff valid member_mem declared).mp sub_mem)
    | default empty byDefault notNamed =>
      have notExcluded := Bool.eq_false_iff.mpr (mt (whole _).mp notNamed)
      exact .inr (.inr ⟨byDefault, by simp [empty], notExcluded⟩)

theorem isHidden_eq_false_iff :
    definition.isHidden = false ↔ definition.returned ≠ .never ∧ definition.mutability ≠ .writeOnly := by
  simp [Attribute.isHidden]

theorem seesSub_iff (selection : Selection) (valid : member.schema.validate = .ok ())
    (member_mem : member ∈ view.members)
    (declared : definition ∈ member.schema.attributes) (returned : definition.returned ≠ .never)
    {sub : Attribute} (declaredSub : sub ∈ definition.subAttributes) :
    selection.showsSub view member definition sub = true ↔
      selection.SeesSub view member definition sub := by
  have includes (references : List Reference) :=
    includesSub_iff valid member_mem declared declaredSub references
  have excludes := Bool.eq_false_iff.trans (not_congr (includes selection.excluded))
  have whole := seesWhole_iff selection valid member_mem declared returned
  simp only [Scim.showsSub, Bool.and_eq_true, Bool.or_eq_true, Bool.not_eq_true', beq_iff_eq,
    isHidden_eq_false_iff, includes, excludes, whole]
  constructor
  · rintro ⟨⟨notNever, readable⟩, seen⟩
    exact ⟨notNever, readable, by tauto⟩
  · rintro ⟨notNever, readable, seen⟩
    exact ⟨⟨notNever, readable⟩, by tauto⟩

end Selections

/-! ### Objects -/

section Objects

variable {attributes : List Attribute} {object : Object}

/-- The entries of an object that name an attribute are those that are read under its declared name.
-/
theorem exists_named_iff (distinct : object.Distinct)
    (named : ∀ definition ∈ attributes, Attribute.find? attributes definition.name = some definition)
    (made : Attribute → Json → Prop) :
    (∃ entry ∈ object, ∃ definition, Attribute.find? attributes entry.1 = some definition ∧
      made definition entry.2) ↔
    ∃ definition ∈ attributes, ∃ stored, object.attribute? definition.name = some stored ∧
      made definition stored := by
  constructor
  · rintro ⟨entry, member, definition, found, holds⟩
    obtain ⟨declared, same⟩ := Attribute.find?_eq_some found
    exact ⟨definition, declared, _, Object.attribute?_of_mem distinct member same.symm, holds⟩
  · rintro ⟨definition, declared, stored, read, holds⟩
    obtain ⟨key, member, same⟩ := Object.mem_of_attribute? read
    have found := (Attribute.find?_congr same).trans (named definition declared)
    exact ⟨_, member, definition, found, holds⟩

/-- An object that is made of what is shown of each attribute, under declared names, holds what is
shown of the attributes that there are. -/
theorem mem_shown_iff (distinct : object.Distinct)
    (named : ∀ definition ∈ attributes, Attribute.find? attributes definition.name = some definition)
    (shown : Attribute → Json → Option Json) (entry : String × Json) :
    entry ∈ Object.ofEntries (object.filterMap fun stored =>
        (Attribute.find? attributes stored.1).bind fun definition =>
          (shown definition stored.2).map (definition.name, ·)) ↔
      ∃ definition ∈ attributes, entry.1 = definition.name ∧
        ∃ stored, object.attribute? definition.name = some stored ∧
          shown definition stored = some entry.2 := by
  have keeps (stored changed : String × Json)
      (made : ((Attribute.find? attributes stored.1).bind fun definition =>
        (shown definition stored.2).map (definition.name, ·)) = some changed) :
      Text.fold changed.1 = Text.fold stored.1 := by
    obtain ⟨definition, found, made⟩ := Option.bind_eq_some_iff.mp made
    obtain ⟨_, _, rfl⟩ := Option.map_eq_some_iff.mp made
    exact (Attribute.find?_eq_some found).2
  rw [Object.mem_ofEntries_iff (distinct.filterMap keeps), List.mem_filterMap]
  simp only [Option.bind_eq_some_iff, Option.map_eq_some_iff]
  rw [exists_named_iff distinct named fun definition stored =>
    ∃ value, shown definition stored = some value ∧ (definition.name, value) = entry]
  obtain ⟨key, value⟩ := entry
  refine exists_congr fun definition => and_congr_right fun _ => ?_
  constructor
  · rintro ⟨stored, read, _, made, same⟩
    cases same
    exact ⟨rfl, stored, read, made⟩
  · rintro ⟨rfl, stored, read, made⟩
    exact ⟨stored, read, value, made, rfl⟩

end Objects

/-! ### Values -/

section Values

variable {definition : Attribute} {shows : Attribute → Bool} {sees : Attribute → Prop}

theorem projectItems_eq (items : List Json) :
    projectItems definition shows items =
      (items.map (projectComplex definition shows)).filter Json.isPresent := by
  induction items with
  | nil => rfl
  | cons item rest ih =>
    rw [projectItems, List.map_cons, List.filter_cons, ih]

/-- The shown entries of a complex value are those of the sub-attributes that show. -/
theorem mem_projected_iff
    (named : ∀ sub ∈ definition.subAttributes, definition.sub? sub.name = some sub)
    (agree : ∀ sub ∈ definition.subAttributes, (shows sub = true ↔ sees sub)) {fields : Object}
    (distinct : fields.Distinct) (entry : String × Json) :
    entry ∈ Object.ofEntries (fields.filterMap fun entry => do
        let sub ← definition.sub? entry.1
        if shows sub && entry.2.isPresent then some (sub.name, entry.2) else none) ↔
      ∃ sub ∈ definition.subAttributes, entry.1 = sub.name ∧ sees sub ∧
        fields.attribute? sub.name = some entry.2 ∧ entry.2.isPresent = true := by
  let shown (sub : Attribute) (stored : Json) : Option Json :=
    if shows sub && stored.isPresent then some stored else none
  have unfolded (entry : String × Json) :
      (do
        let sub ← definition.sub? entry.1
        if shows sub && entry.2.isPresent then some (sub.name, entry.2) else none) =
      (definition.sub? entry.1).bind fun sub => (shown sub entry.2).map (sub.name, ·) := by
    refine Option.bind_congr fun sub _ => ?_
    simp only [shown]
    split <;> rfl
  simp only [unfolded]
  refine (mem_shown_iff distinct named shown entry).trans ?_
  refine exists_congr fun sub => and_congr_right fun declared => and_congr_right fun _ => ?_
  simp only [shown, Option.ite_none_right_eq_some, Bool.and_eq_true, agree sub declared,
    Option.some.injEq]
  constructor
  · rintro ⟨stored, read, ⟨seen, present⟩, rfl⟩
    exact ⟨seen, read, present⟩
  · rintro ⟨seen, read, present⟩
    exact ⟨_, read, ⟨seen, present⟩, rfl⟩

theorem cuts_scalar_iff {value cut : Json} (isScalar : value.isScalar = true) :
    definition.Cuts sees value cut ↔ value = cut := by
  constructor
  · intro cuts
    cases cuts with
    | object | array => cases isScalar
    | scalar => rfl
  · rintro rfl
    exact .scalar isScalar

mutual

/-- What is shown of a complex value is the value without the sub-attributes that do not show, and
nothing else is. -/
theorem cuts_iff
    (named : ∀ sub ∈ definition.subAttributes, definition.sub? sub.name = some sub)
    (agree : ∀ sub ∈ definition.subAttributes, (shows sub = true ↔ sees sub)) :
    ∀ value cut, value.isDistinct = true →
      (definition.Cuts sees value cut ↔ projectComplex definition shows value = cut)
  | .array items, cut, distinct => by
    rw [projectComplex, projectItems_eq]
    constructor
    · intro cuts
      cases cuts with
      | array each => rw [(cutsItems_iff named agree items _ distinct).mp each]
      | scalar isScalar => cases isScalar
    · rintro rfl
      exact .array ((cutsItems_iff named agree items _ distinct).mpr rfl)
  | .object fields, cut, distinct => by
    rw [projectComplex]
    have shown := mem_projected_iff named agree (Json.isDistinct_object_iff.mp distinct).1
    constructor
    · intro cuts
      cases cuts with
      | object sorted entries =>
        -- A sorted object is known by its entries.
        have same := (Object.sorted_ofEntries _).eq_of_mem_iff sorted fun entry =>
          (shown entry).trans (entries entry).symm
        exact congrArg Json.object same
      | scalar isScalar => cases isScalar
    · rintro rfl
      exact .object (Object.sorted_ofEntries _) shown
  | .null, _, _ => cuts_scalar_iff rfl
  | .bool _, _, _ => cuts_scalar_iff rfl
  | .number _, _, _ => cuts_scalar_iff rfl
  | .string _, _, _ => cuts_scalar_iff rfl

theorem cutsItems_iff
    (named : ∀ sub ∈ definition.subAttributes, definition.sub? sub.name = some sub)
    (agree : ∀ sub ∈ definition.subAttributes, (shows sub = true ↔ sees sub)) :
    ∀ items cuts, Json.isDistinctItems items = true →
      (List.Forall₂ (definition.Cuts sees) items cuts ↔
        items.map (projectComplex definition shows) = cuts)
  | [], cuts, _ => by
    rw [List.forall₂_nil_left_iff, List.map_nil, eq_comm]
  | item :: rest, cuts, distinct => by
    obtain ⟨distinctItem, distinctRest⟩ := Bool.and_eq_true_iff.mp distinct
    rw [List.forall₂_cons_left_iff, List.map_cons]
    constructor
    · rintro ⟨cut, cuts, first, others, rfl⟩
      rw [(cuts_iff named agree item cut distinctItem).mp first,
        (cutsItems_iff named agree rest cuts distinctRest).mp others]
    · rintro rfl
      exact ⟨_, _, (cuts_iff named agree item _ distinctItem).mpr rfl,
        (cutsItems_iff named agree rest _ distinctRest).mpr rfl, rfl⟩

end

end Values

/-! ### Attributes -/

section Attributes

variable {selection : Selection} {view : View} {member : Member} {definition : Attribute}

/-- A value is shown if the attribute is visible and something is left to be seen. -/
theorem value?_eq_some {stored shown : Json} :
    (selection.projection view).value? member definition stored = some shown ↔
      definition.isHidden = false ∧ stored.isPresent = true ∧
      selection.visibility view member definition ≠ .none ∧
      (definition.isComplex = false → shown = stored) ∧
      (definition.isComplex = true →
        projectComplex definition (selection.showsSub view member definition) stored = shown) ∧
      shown.isPresent = true := by
  have unfolded : (selection.projection view).value? member definition stored =
      if definition.isHidden || !stored.isPresent then none
      else if selection.visibility view member definition = .none then none
      else if !definition.isComplex then some stored
      else
        let projected :=
          projectComplex definition (selection.showsSub view member definition) stored
        if projected.isPresent then some projected else none := rfl
  rw [unfolded]
  cases definition.isHidden with
  | true => simp
  | false =>
    cases present : stored.isPresent with
    | false => simp
    | true =>
      by_cases hides : selection.visibility view member definition = .none
      · simp [hides]
      · cases definition.isComplex with
        | false =>
          have same : stored = shown ↔ shown = stored ∧ shown.isPresent = true := by
            constructor
            · rintro rfl
              exact ⟨rfl, present⟩
            · exact fun same => same.1.symm
          simpa [hides] using same
        | true =>
          let projected :=
            projectComplex definition (selection.showsSub view member definition) stored
          have same : (projected.isPresent = true ∧ projected = shown) ↔
              projected = shown ∧ shown.isPresent = true := by
            constructor
            · rintro ⟨remains, rfl⟩
              exact ⟨rfl, remains⟩
            · rintro ⟨rfl, remains⟩
              exact ⟨remains, rfl⟩
          simpa [hides] using same

theorem value?_eq_some_iff (valid : member.schema.validate = .ok ())
    (member_mem : member ∈ view.members) (declared : definition ∈ member.schema.attributes)
    {stored shown : Json} (distinct : stored.isDistinct = true) :
    (selection.projection view).value? member definition stored = some shown ↔
      selection.Shows view member definition stored shown := by
  have sees := sees_iff selection valid member_mem declared
  have cuts (returned : definition.returned ≠ .never) :=
    cuts_iff (fun _ => Schema.sub?_name valid declared)
      (fun _ => seesSub_iff selection valid member_mem declared returned) stored
      shown distinct
  rw [value?_eq_some]
  constructor
  · rintro ⟨notHidden, present, visible, simple, complex, remains⟩
    obtain ⟨returned, readable⟩ := isHidden_eq_false_iff.mp notHidden
    exact ⟨present, returned, readable, (sees returned).mp visible, simple,
      fun isComplex => (cuts returned).mpr (complex isComplex), remains⟩
  · rintro ⟨present, returned, readable, seen, simple, complex, remains⟩
    exact ⟨isHidden_eq_false_iff.mpr ⟨returned, readable⟩, present, (sees returned).mpr seen, simple,
      fun isComplex => (cuts returned).mp (complex isComplex), remains⟩

theorem mem_entries_iff (valid : member.schema.validate = .ok ())
    (member_mem : member ∈ view.members) {object : Object}
    (distinct : Json.isDistinct (.object object) = true) (entry : String × Json) :
    entry ∈ (selection.projection view).entries member object ↔
      selection.ShowsEntry view member object entry := by
  have named (definition : Attribute) (declared : definition ∈ member.schema.attributes) :=
    Schema.find?_name valid declared
  have unfolded : (selection.projection view).entries member object =
      Object.ofEntries (object.filterMap fun stored =>
        (Attribute.find? member.schema.attributes stored.1).bind fun definition =>
          ((selection.projection view).value? member definition stored.2).map (definition.name, ·)) := by
    unfold Projection.entries
    congr 2
    funext stored
    refine Option.bind_congr fun definition _ => ?_
    exact bind_pure_comp _ _
  rw [unfolded]
  refine (mem_shown_iff (Json.isDistinct_object_iff.mp distinct).1 named _ entry).trans ?_
  refine exists_congr fun definition => and_congr_right fun declared => and_congr_right fun _ => ?_
  refine exists_congr fun stored => and_congr_right fun read => ?_
  exact value?_eq_some_iff valid member_mem declared (Json.isDistinct_of_attribute? distinct read)

end Attributes

/-! ### Resources -/

section Resources

variable {selection : Selection} {view : View} {resource : Object} {entry : String × Json}

/-- Every entry is shown under the name that it has, up to case. -/
theorem fold_key_of_entry? {projection : Projection} (wellFormed : projection.view.WellFormed)
    {key : String} {value : Json} (made : projection.entry? key value = some entry) :
    Text.fold entry.1 = Text.fold key := by
  rcases (entry?_eq_some_iff wellFormed).mp made with
    ⟨_, rfl⟩ | ⟨extension, _, found, _, _, rfl⟩ | ⟨definition, found, _, _, rfl⟩
  · rfl
  · exact View.fold_id_of_extensionFor? found
  · exact (Attribute.find?_eq_some found).2

/-- What is shown of the entries of a resource is what the selection calls for. -/
theorem exists_entry?_iff (wellFormed : view.WellFormed)
    (distinct : Json.isDistinct (.object resource) = true) :
    (∃ stored ∈ resource, Projection.entry? (selection.projection view) stored.1 stored.2 = some entry) ↔
      selection.ShowsIn view resource entry := by
  have apart := (Json.isDistinct_object_iff.mp distinct).1
  have base_mem : view.baseMember ∈ view.members := List.mem_cons_self
  have baseValid := wellFormed.valid _ base_mem
  -- The object of an extension is shown as the entries of which something is seen.
  have extensionEntries {extension : Member} (extension_mem : extension ∈ view.extensionMembers)
      {fields : Object} (read : resource.attribute? extension.schema.id = some (.object fields))
      (entry : String × Json) :
      entry ∈ (selection.projection view).entries extension fields ↔
        selection.ShowsEntry view extension fields entry := by
    have member_mem := View.mem_members_of_mem_extensionMembers extension_mem
    exact mem_entries_iff (wellFormed.valid _ member_mem) member_mem
      (Json.isDistinct_of_attribute? distinct read) entry
  constructor
  · rintro ⟨⟨key, value⟩, stored, made⟩
    rcases (entry?_eq_some_iff wellFormed).mp made with
      ⟨isSchemas, rfl⟩ | ⟨extension, fields, found, rfl, notEmpty, rfl⟩ |
      ⟨definition, found, shown, projected, rfl⟩
    · exact .schemas isSchemas stored
    · have extension_mem := View.extensionFor?_eq_some found
      have read := Object.attribute?_of_mem apart stored (View.fold_id_of_extensionFor? found).symm
      exact .extension extension_mem read (Object.sorted_ofEntries _) notEmpty
        (extensionEntries extension_mem read)
    · obtain ⟨declared, same⟩ := Attribute.find?_eq_some found
      have read := Object.attribute?_of_mem apart stored same.symm
      have valueDistinct := Json.isDistinct_of_attribute? distinct read
      exact .base ⟨definition, declared, rfl, value, read,
        (value?_eq_some_iff baseValid base_mem declared valueDistinct).mp projected⟩
  · intro shows
    cases shows with
    | schemas isSchemas stored =>
      exact ⟨_, stored, (entry?_eq_some_iff wellFormed).mpr (.inl ⟨isSchemas, rfl⟩)⟩
    | base shows =>
      obtain ⟨key, shown⟩ := entry
      obtain ⟨definition, declared, rfl, value, read, shows⟩ := shows
      obtain ⟨key, stored, same⟩ := Object.mem_of_attribute? read
      have found : view.base.find? key = some definition :=
        (Attribute.find?_congr same).trans (Schema.find?_name baseValid declared)
      have projected := (value?_eq_some_iff baseValid base_mem declared
        (Json.isDistinct_of_attribute? distinct read)).mpr shows
      exact ⟨_, stored, (entry?_eq_some_iff wellFormed).mpr
        (.inr (.inr ⟨definition, found, shown, projected, rfl⟩))⟩
    | @extension extension fields shown extension_mem read sorted notEmpty entries =>
      -- The key may be any spelling of the URN; it leads to the same extension.
      obtain ⟨key, stored, same⟩ := Object.mem_of_attribute? read
      have found := wellFormed.extensionFor?_eq extension_mem same
      obtain rfl : (selection.projection view).entries extension fields = shown :=
        (Object.sorted_ofEntries _).eq_of_mem_iff sorted fun entry =>
          (extensionEntries extension_mem read entry).trans (entries entry).symm
      exact ⟨_, stored, (entry?_eq_some_iff wellFormed).mpr
        (.inr (.inl ⟨extension, fields, found, rfl, notEmpty, rfl⟩))⟩

end Resources

/-- **Projection shows exactly what the selection calls for**: the list of schemas, and of each
attribute that is present, neither hidden nor left out by the selection, what remains of it. A simple
attribute keeps its value, a complex one the sub-attributes that are to be seen; attributes of an
extension stand in an object under its URN. -/
theorem project_shows (selection : Selection) (view : View) (resource : Object)
    (wellFormed : view.WellFormed) (distinct : Json.isDistinct (.object resource) = true)
    (oneList : selection.included = [] ∨ selection.excluded = []) :
    ∃ output : Object, project selection view (.object resource) = .ok (.object output) ∧
      output.Sorted ∧ ∀ entry, entry ∈ output ↔ selection.ShowsIn view resource entry := by
  have notAmbiguous : ¬(!selection.included.isEmpty && !selection.excluded.isEmpty) = true := by
    rcases oneList with empty | empty <;> simp [empty]
  have apart : Object.Distinct
      (resource.filterMap fun entry => Projection.entry? (selection.projection view) entry.1 entry.2) :=
    (Json.isDistinct_object_iff.mp distinct).1.filterMap fun _ _ => fold_key_of_entry? wellFormed
  refine ⟨_, if_neg notAmbiguous, Object.sorted_ofEntries _, fun entry => ?_⟩
  rw [Object.mem_ofEntries_iff apart, List.mem_filterMap]
  exact exists_entry?_iff wellFormed distinct

/-- A sub-attribute and an extension are asked for: the sub-attribute comes with the one that is
always returned, and an element that holds neither is left out. -/
theorem project_shows_asked :
    let emails : Attribute :=
      { name := "emails", type := .complex, multiValued := true
        subAttributes :=
          [{ name := "value" }, { name := "kind", returned := .always }, { name := "label" }] }
    let view := View.ofSchemas
      { id := "urn:a"
        attributes := [emails, { name := "title" }, { name := "secret", returned := .never }] }
      [{ id := "urn:b", attributes := [{ name := "badge" }, { name := "pin", mutability := .writeOnly }] }]
    let selection : Selection :=
      { included := [⟨none, "emails", some "VALUE"⟩, ⟨some "urn", "b", none⟩, ⟨none, "secret", none⟩] }
    let resource : Object :=
      [("EMAILS", .array [.object [("Kind", .string "home"), ("label", .string "x"), ("value", .string "a")],
          .object [("label", .string "y")]]),
        ("schemas", .array [.string "urn:a"]), ("secret", .string "s"), ("title", .string "t"),
        ("urn:B", .object [("badge", .string "7"), ("pin", .string "1")])]
    let output : Object :=
      [("emails", .array [.object [("kind", .string "home"), ("value", .string "a")]]),
        ("schemas", .array [.string "urn:a"]), ("urn:b", .object [("badge", .string "7")])]
    project selection view (.object resource) = .ok (.object output) ∧
      ∃ output : Object, project selection view (.object resource) = .ok (.object output) ∧
        output.Sorted ∧ ∀ entry, entry ∈ output ↔ selection.ShowsIn view resource entry :=
  ⟨rfl, project_shows _ _ _ (by decide) (by decide) (.inr rfl)⟩

end Scim
