import Scim.Schema.Index

/-!
# What indices find

An index that was built for a list leads from a name to the first element with that name, in any case.
However an attribute or a schema was put together, its indices are those that were built for its lists,
on every level: a list is never set without its index.
-/

namespace Scim

namespace NameIndex

variable {index : NameIndex} {name : String}

theorem position?_note (position : Nat) (other : String) :
    (index.note name position).position? other =
      (index.position? other).or (if Text.sameName name other then some position else none) := by
  unfold note
  split
  next known found =>
    -- A name that is known already keeps its position.
    by_cases same : Text.fold name = Text.fold other
    · have foundOther : index.position? other = some known := by
        rw [← found, position?, position?, same]
      rw [foundOther]
      rfl
    · simp [Text.sameName, same]
  next absent =>
    unfold position? at absent ⊢
    by_cases same : Text.fold name = Text.fold other
    · rw [same] at absent ⊢
      simp [Text.sameName, same, absent]
    · have different : (Text.fold other == Text.fold name) = false := by simpa using Ne.symm same
      simp [Text.sameName, same, List.lookup_cons, different]

theorem position?_noteAll (position : Nat) (names : List String) (other : String) :
    (index.noteAll position names).position? other =
      (index.position? other).or
        ((names.findIdx? (Text.sameName · other)).map (position + ·)) := by
  induction names generalizing index position with
  | nil => simp [noteAll]
  | cons name rest ih =>
    rw [noteAll, ih, position?_note, List.findIdx?_cons, Option.or_assoc]
    by_cases same : Text.sameName name other = true
    · simp [same]
    · simp [same, Function.comp_def, Nat.add_assoc, Nat.add_comm 1]

/-- The index over some elements leads to the first one with a name. -/
theorem get?_build {α : Type} (elements : List α) (nameOf : α → String) (name : String) :
    (build (elements.map nameOf)).get? elements name =
      elements.find? fun element => Text.sameName (nameOf element) name := by
  have noted : (build (elements.map nameOf)).position? name =
      elements.findIdx? fun element => Text.sameName (nameOf element) name := by
    rw [build, position?_noteAll, List.findIdx?_map]
    simp [position?, Function.comp_def]
  rw [get?, noted, List.find?_eq_bind_findIdx?_getElem?]

end NameIndex

theorem IndexTree.ofAttributes_eq_map (definitions : List Attribute) :
    ofAttributes definitions = definitions.map ofAttribute := by
  induction definitions with
  | nil => rfl
  | cons definition rest ih => rw [ofAttributes, List.map_cons, ih]

theorem IndexTree.ofAttribute_eq (definition : Attribute) :
    ofAttribute definition =
      ⟨.build (definition.subAttributes.map (·.name)), definition.subAttributes.map ofAttribute⟩ := by
  cases definition
  rw [ofAttribute, ofAttributes_eq_map]

theorem zipWith_ofAttribute (definitions : List Attribute) :
    definitions.zipWith IndexedAttribute.mk (definitions.map .ofAttribute) =
      definitions.map .ofAttribute := by
  rw [List.zipWith_map_right, List.zipWith_self]
  rfl

/-! ### Attributes -/

namespace IndexedAttribute

/-- The attributes that can be put together: read from documents, or made and changed step by step. -/
inductive IsBuilt : IndexedAttribute → Prop
  | read (definition : Attribute) : IsBuilt (ofAttribute definition)
  | simple (name : String) (type : AttributeType) : IsBuilt (simple name type)
  | set {indexed : IndexedAttribute} (characteristic : Characteristic) :
    IsBuilt indexed → IsBuilt (indexed.set characteristic)
  | withSubAttributes {indexed : IndexedAttribute} {subs : List IndexedAttribute} :
    IsBuilt indexed → (∀ sub ∈ subs, IsBuilt sub) → IsBuilt (indexed.withSubAttributes subs)

theorem map_ofAttribute {attributes : List IndexedAttribute}
    (each : ∀ indexed ∈ attributes, indexed = ofAttribute indexed.definition) :
    (attributes.map (·.definition)).map ofAttribute = attributes := by
  have same : attributes.map (ofAttribute ∘ (·.definition)) = attributes.map id :=
    List.map_congr_left fun indexed member => (each indexed member).symm
  rw [List.map_map, same, List.map_id]

/-- However an attribute was put together, its indices are those that a reader would make. -/
theorem IsBuilt.eq_ofAttribute {indexed : IndexedAttribute} (built : indexed.IsBuilt) :
    indexed = ofAttribute indexed.definition := by
  induction built with
  | read definition => rfl
  | simple name type => rfl
  | @set indexed characteristic _ ih =>
    -- No other characteristic than the sub-attributes enters the indices.
    have tree : indexed.tree = .ofAttribute indexed.definition := congrArg IndexedAttribute.tree ih
    have same : IndexTree.ofAttribute (characteristic.set indexed.definition) =
        .ofAttribute indexed.definition := by
      rw [IndexTree.ofAttribute_eq, IndexTree.ofAttribute_eq]
      cases characteristic <;> rfl
    exact congrArg (mk (characteristic.set indexed.definition)) (tree.trans same.symm)
  | @withSubAttributes indexed subs _ _ _ ih =>
    have trees : subs.map (·.tree) = (subs.map (·.definition)).map .ofAttribute := by
      rw [List.map_map]
      exact List.map_congr_left fun sub member => congrArg IndexedAttribute.tree (ih sub member)
    have names : subs.map (·.name) = (subs.map (·.definition)).map (·.name) := by
      rw [List.map_map]
      rfl
    refine congrArg (mk _) ?_
    rw [IndexTree.ofAttribute_eq, trees, names]
    rfl

theorem subAttributes_ofAttribute (definition : Attribute) :
    (ofAttribute definition).subAttributes = definition.subAttributes.map ofAttribute := by
  rw [subAttributes, ofAttribute, IndexTree.ofAttribute_eq]
  exact zipWith_ofAttribute definition.subAttributes

/-- The indices of a reader lead to the first sub-attribute with a name. -/
theorem get?_ofAttribute (definition : Attribute) (name : String) :
    (ofAttribute definition).get? name =
      (ofAttribute definition).subAttributes.find? fun sub => Text.sameName sub.name name := by
  have index : (ofAttribute definition).tree.index =
      .build ((ofAttribute definition).subAttributes.map IndexedAttribute.name) := by
    rw [subAttributes_ofAttribute, List.map_map, ofAttribute, IndexTree.ofAttribute_eq]
    rfl
  rw [get?, index, NameIndex.get?_build]

/-- An index finds what a search finds. -/
theorem definition_get?_ofAttribute (definition : Attribute) (name : String) :
    ((ofAttribute definition).get? name).map (·.definition) = definition.sub? name := by
  rw [get?_ofAttribute, subAttributes_ofAttribute, List.find?_map, Option.map_map]
  exact congrFun Option.map_id _

end IndexedAttribute

/-! ### Schemas -/

namespace IndexedSchema

/-- The schemas that can be put together, from attributes that can. -/
inductive IsBuilt : IndexedSchema → Prop
  | read (schema : Schema) : IsBuilt (ofSchema schema)
  | new (id name description : String) {attributes : List IndexedAttribute} :
    (∀ indexed ∈ attributes, indexed.IsBuilt) → IsBuilt (new id name description attributes)
  | describe (id name description : String) {indexed : IndexedSchema} :
    IsBuilt indexed → IsBuilt (indexed.describe id name description)

/-- The attributes of a schema on all levels. -/
inductive Holds (indexed : IndexedSchema) : IndexedAttribute → Prop
  | top {found : IndexedAttribute} : found ∈ indexed.attributes → Holds indexed found
  | sub {parent found : IndexedAttribute} :
    Holds indexed parent → found ∈ parent.subAttributes → Holds indexed found

@[simp] theorem schema_ofSchema (schema : Schema) : (ofSchema schema).schema = schema := by
  have same : (schema.attributes.map IndexedAttribute.ofAttribute).map (·.definition) =
      schema.attributes := by
    rw [List.map_map]
    exact List.map_id _
  simp only [ofSchema, new, same]

/-- However a schema was put together, its indices are those that a reader would make. -/
theorem IsBuilt.eq_ofSchema {indexed : IndexedSchema} (built : indexed.IsBuilt) :
    indexed = ofSchema indexed.schema := by
  induction built with
  | read schema => rw [schema_ofSchema]
  | @new id name description attributes each =>
    have same := IndexedAttribute.map_ofAttribute fun indexed member =>
      (each indexed member).eq_ofAttribute
    show _ = IndexedSchema.new id name description
      ((attributes.map (·.definition)).map IndexedAttribute.ofAttribute)
    rw [same]
  | @describe id name description indexed _ ih =>
    let described := (indexed.describe id name description).schema
    have index : indexed.index = (ofSchema indexed.schema).index := congrArg IndexedSchema.index ih
    have inner : indexed.inner = (ofSchema indexed.schema).inner := congrArg IndexedSchema.inner ih
    -- The attributes are the same as before, and nothing else enters the indices.
    calc indexed.describe id name description
      _ = mk described (ofSchema described).index (ofSchema described).inner :=
        congr (congrArg (mk described) index) inner
      _ = mk (ofSchema described).schema (ofSchema described).index (ofSchema described).inner := by
        rw [schema_ofSchema]

theorem attributes_ofSchema (schema : Schema) :
    (ofSchema schema).attributes = schema.attributes.map .ofAttribute := by
  have trees : (ofSchema schema).inner = schema.attributes.map .ofAttribute := by
    show (schema.attributes.map IndexedAttribute.ofAttribute).map (·.tree) = _
    rw [List.map_map]
    rfl
  rw [attributes, schema_ofSchema, trees, zipWith_ofAttribute]

/-- The index of a reader leads to the first attribute with a name. -/
theorem get?_ofSchema (schema : Schema) (name : String) :
    (ofSchema schema).get? name =
      (ofSchema schema).attributes.find? fun found => Text.sameName found.name name := by
  have index : (ofSchema schema).index =
      .build ((ofSchema schema).attributes.map IndexedAttribute.name) := by
    rw [attributes_ofSchema]
    rfl
  rw [get?, index, NameIndex.get?_build]

theorem definition_get?_ofSchema (schema : Schema) (name : String) :
    ((ofSchema schema).get? name).map (·.definition) = schema.find? name := by
  rw [get?_ofSchema, attributes_ofSchema, List.find?_map, Option.map_map]
  exact congrFun Option.map_id _

/-- On every level of a schema the indices are those that a reader would make. -/
theorem Holds.eq_ofAttribute {schema : Schema} {found : IndexedAttribute}
    (holds : (ofSchema schema).Holds found) : found = .ofAttribute found.definition := by
  induction holds with
  | top member =>
    rw [attributes_ofSchema] at member
    obtain ⟨definition, _, rfl⟩ := List.mem_map.mp member
    rfl
  | sub _ member ih =>
    rw [ih, IndexedAttribute.subAttributes_ofAttribute] at member
    obtain ⟨definition, _, rfl⟩ := List.mem_map.mp member
    rfl

end IndexedSchema

end Scim
