import Scim.Proofs.Json.Records
import Scim.Proofs.Schema.Index
import Scim.Proofs.Schema.Validity

/-!
# Writing schemas and reading them again

The document of an attribute is decoded as the attribute, characteristic by characteristic, if there is
room for its sub-attributes, and as nothing else. So a schema survives as a document whether it is valid
or not, and as a text if and only if it is valid: a valid schema is never nested too deeply to be read.
-/

namespace Scim

open Json

/-- A keyword is decoded as the choice that it stands for. -/
theorem decodeChoice_keyword {α : Type} (origin : Origin) (room : Nat) {choices : List (String × α)}
    {keyword : String} {value : α} (listed : choices.lookup keyword = some value) :
    decodeChoice origin room choices (.ofJson (.string keyword)) = .ok value := by
  simp [Document.ofJson, decodeChoice, decodeChoice.choose, listed]

theorem AttributeType.lookup_choices (type : AttributeType) : choices.lookup type.keyword = some type := by
  cases type <;> rfl

theorem Mutability.lookup_choices (mutability : Mutability) :
    choices.lookup mutability.keyword = some mutability := by
  cases mutability <;> rfl

theorem Returned.lookup_choices (returned : Returned) :
    choices.lookup returned.keyword = some returned := by
  cases returned <;> rfl

theorem Uniqueness.lookup_choices (uniqueness : Uniqueness) :
    choices.lookup uniqueness.keyword = some uniqueness := by
  cases uniqueness <;> rfl

namespace Attribute

theorem toJsonList_eq_map (definitions : List Attribute) :
    toJsonList definitions = definitions.map toJson := by
  induction definitions with
  | nil => rfl
  | cons definition rest ih => rw [toJsonList, List.map_cons, ih]

theorem decode_strings_eq_ok_iff {room : Nat} {values found : List String} :
    decodeList room decodeString (.ofJson (.array (values.map .string))) = .ok found ↔
      0 < room ∧ values = found := by
  have each : ∀ content : String, decodeString (.ofJson (.string content)) = .ok content := fun _ => rfl
  simp only [decodeList_map_eq_ok_iff, each, Except.ok.injEq, List.forall₂_eq_eq_eq]

/-- The fields of an attribute are decoded one by one, where its sub-attributes are decoded on some
condition. Lists that are empty are not written, so nothing is asked of them. -/
theorem decodeRecord_toJson_eq_ok_iff {origin : Origin} {room inner : Nat}
    {decodeSubs : Decoder (List Attribute)} {definition found : Attribute} {condition : Prop}
    (subs : ∀ others, decodeSubs (.ofJson (.array (toJsonList definition.subAttributes))) = .ok others ↔
      condition ∧ definition.subAttributes = others) :
    decodeRecord origin room (fields origin inner decodeSubs) (simple "" .string)
        (.ofJson definition.toJson) = .ok found ↔
      0 < room ∧ (definition.canonicalValues ≠ [] → 0 < inner) ∧
        (definition.subAttributes ≠ [] → condition) ∧ definition = found := by
  obtain ⟨name, type, multiValued, required, caseExact, mutability, returned, uniqueness, canonicalValues,
    subAttributes⟩ := definition
  have isString (content : String) : decodeString (.ofJson (.string content)) = .ok content := rfl
  have isBool (value : Bool) : decodeBool (.ofJson (.bool value)) = .ok value := rfl
  have isType := decodeChoice_keyword origin inner type.lookup_choices
  have isMutability := decodeChoice_keyword origin inner mutability.lookup_choices
  have isReturned := decodeChoice_keyword origin inner returned.lookup_choices
  have isUniqueness := decodeChoice_keyword origin inner uniqueness.lookup_choices
  -- Which entries are written depends on which of the two lists are empty.
  by_cases noValues : canonicalValues = [] <;> by_cases noSubs : subAttributes = [] <;>
    refine decodeRecord_object_eq_ok_iff.trans (and_congr_right fun _ => ?_) <;>
    simp [Document.ofEntries, storeEntries, fields, RecordField.answersTo, bind_eq_ok_iff, simple,
      isString, isBool, isType, isMutability, isReturned, isUniqueness, noValues, noSubs,
      decode_strings_eq_ok_iff, subs, and_assoc]

/-- Lists in an attribute take a level, and what stands in them the levels below. -/
theorem nesting_toJson_le_iff {definition : Attribute} {room : Nat} :
    (Document.ofJson definition.toJson).nesting ≤ room ↔
      0 < room ∧ (definition.canonicalValues ≠ [] → 1 < room) ∧
        (definition.subAttributes ≠ [] → 1 < room ∧
          ∀ sub ∈ definition.subAttributes, (Document.ofJson sub.toJson).nesting + 2 ≤ room) := by
  obtain ⟨name, type, multiValued, required, caseExact, mutability, returned, uniqueness, canonicalValues,
    subAttributes⟩ := definition
  have isString (content : String) : (Document.ofJson (.string content)).nesting = 0 := rfl
  have isBool (value : Bool) : (Document.ofJson (.bool value)).nesting = 0 := rfl
  cases room with
  | zero => simp [toJson, Document.ofJson, Document.nesting]
  | succ room =>
    have values : (Document.ofJson (.array (canonicalValues.map .string))).nesting ≤ room ↔ 0 < room := by
      rw [Document.nesting_array_le_iff, List.forall_mem_map]
      exact and_iff_left_of_imp fun positive _ _ => positive
    have subs : (Document.ofJson (.array (subAttributes.map toJson))).nesting ≤ room ↔
        0 < room ∧ ∀ sub ∈ subAttributes, (Document.ofJson sub.toJson).nesting + 1 ≤ room := by
      rw [Document.nesting_array_le_iff, List.forall_mem_map]
    rw [toJson, Document.nesting_object_le_iff, toJsonList_eq_map]
    by_cases noValues : canonicalValues = [] <;> by_cases noSubs : subAttributes = [] <;>
      simp [noValues, noSubs, isString, isBool, values, subs]

/-- A list of attributes is decoded if there is room for it and each of its attributes is. -/
theorem decodeList_toJson_eq_ok_iff {origin : Origin} {room inner : Nat}
    (each : ∀ {definition found : Attribute}, decode origin inner (.ofJson definition.toJson) = .ok found ↔
      (Document.ofJson definition.toJson).nesting ≤ inner ∧ definition = found)
    {definitions found : List Attribute} :
    decodeList room (decode origin inner) (.ofJson (.array (toJsonList definitions))) = .ok found ↔
      (0 < room ∧ ∀ definition ∈ definitions, (Document.ofJson definition.toJson).nesting ≤ inner) ∧
        definitions = found := by
  rw [toJsonList_eq_map, decodeList_map_eq_ok_iff, and_assoc]
  simp only [each, List.forall₂_and_left, List.forall₂_eq_eq_eq]

/-- Without room for lists an attribute is decoded if it has none. -/
theorem decode_toJson_of_lt_two {origin : Origin} {room : Nat} (small : room < 2)
    {definition found : Attribute} :
    decode origin room (.ofJson definition.toJson) = .ok found ↔
      (Document.ofJson definition.toJson).nesting ≤ room ∧ definition = found := by
  have noSubs : ∀ others, decodeList 0 (fun _ => .error .notJson)
      (.ofJson (.array (toJsonList definition.subAttributes))) = .ok others ↔
        False ∧ definition.subAttributes = others := by
    simp [decodeList_eq_ok_iff]
  have noRoom : ¬ 1 < room := by omega
  rw [nesting_toJson_le_iff, decode.eq_2 origin room (by omega), decodeRecord_toJson_eq_ok_iff noSubs]
  simp [noRoom, and_assoc]

/-- Decoding an attribute from its own document gives the attribute or nothing, depending only on whether
there is room for it. -/
theorem decode_toJson_eq_ok_iff {origin : Origin} : ∀ (room : Nat) {definition found : Attribute},
    decode origin room (.ofJson definition.toJson) = .ok found ↔
      (Document.ofJson definition.toJson).nesting ≤ room ∧ definition = found
  | 0, _, _ => decode_toJson_of_lt_two (by decide)
  | 1, _, _ => decode_toJson_of_lt_two (by decide)
  | room + 2, definition, found => by
    -- The list takes one level and the attribute around it another, so the room shrinks by two.
    have subs (others : List Attribute) :
        decodeList (room + 1) (decode origin room)
            (.ofJson (.array (toJsonList definition.subAttributes))) = .ok others ↔
          (0 < room + 1 ∧ ∀ sub ∈ definition.subAttributes,
            (Document.ofJson sub.toJson).nesting ≤ room) ∧ definition.subAttributes = others :=
      decodeList_toJson_eq_ok_iff (decode_toJson_eq_ok_iff room)
    rw [nesting_toJson_le_iff, decode, decodeRecord_toJson_eq_ok_iff subs]
    simp

mutual

/-- No characteristic is a number. -/
theorem numbers_toJson : ∀ definition : Attribute, definition.toJson.numbers = []
  | ⟨name, type, multiValued, required, caseExact, mutability, returned, uniqueness, canonicalValues,
      subAttributes⟩ => by
    have inSubs := numbers_toJsonList subAttributes
    have inValues : Json.itemNumbers (canonicalValues.map .string) = [] := by
      induction canonicalValues with
      | nil => rfl
      | cons value rest ih => exact ih
    rw [toJson, Json.numbers]
    by_cases noValues : canonicalValues = [] <;> by_cases noSubs : subAttributes = [] <;>
      simp [noValues, noSubs, Json.entryNumbers, Json.numbers, inSubs, inValues]

theorem numbers_toJsonList : ∀ definitions : List Attribute,
    Json.itemNumbers (toJsonList definitions) = []
  | [] => rfl
  | definition :: rest => by
    rw [toJsonList, Json.itemNumbers, numbers_toJson definition, numbers_toJsonList rest]
    rfl

end

mutual

/-- The characteristics are written in the order of their names. -/
theorem ordered_toJson : ∀ definition : Attribute, definition.toJson.Ordered
  | ⟨name, type, multiValued, required, caseExact, mutability, returned, uniqueness, canonicalValues,
      subAttributes⟩ => by
    have inSubs := ordered_toJsonList subAttributes
    have inValues : OrderedItems (canonicalValues.map .string) := by
      refine ordered_array_iff.mpr (List.forall_mem_map.mpr ?_)
      exact fun _ _ => trivial
    have names : ["canonicalValues", "caseExact", "multiValued", "mutability", "name", "required",
        "returned", "subAttributes", "type", "uniqueness"].Pairwise (· < ·) := by decide
    rw [toJson, Json.Ordered]
    refine ⟨names.sublist ?_, ?_⟩ <;> by_cases noValues : canonicalValues = [] <;>
      by_cases noSubs : subAttributes = [] <;>
      simp [noValues, noSubs, Object.keys, OrderedEntries, Json.Ordered, inSubs, inValues]

theorem ordered_toJsonList : ∀ definitions : List Attribute, OrderedItems (toJsonList definitions)
  | [] => trivial
  | definition :: rest => ⟨ordered_toJson definition, ordered_toJsonList rest⟩

end

end Attribute

namespace Schema

theorem nesting_toJson_le_iff {schema : Schema} {room : Nat} :
    (Document.ofJson schema.toJson).nesting ≤ room ↔
      1 < room ∧ ∀ definition ∈ schema.attributes,
        (Document.ofJson definition.toJson).nesting + 2 ≤ room := by
  have isString (content : String) : (Document.ofJson (.string content)).nesting = 0 := rfl
  cases room with
  | zero => simp [toJson, Document.ofJson, Document.nesting]
  | succ room =>
    have attributes : (Document.ofJson (.array (schema.attributes.map Attribute.toJson))).nesting ≤ room ↔
        0 < room ∧ ∀ definition ∈ schema.attributes,
          (Document.ofJson definition.toJson).nesting + 1 ≤ room := by
      rw [Document.nesting_array_le_iff, List.forall_mem_map]
    rw [toJson, Document.nesting_object_le_iff, Attribute.toJsonList_eq_map]
    simp [isString, attributes]

/-- Decoding a schema from its own document gives the schema or nothing, depending only on whether there
is room for it. -/
theorem decode_toJson_eq_ok_iff {origin : Origin} {room : Nat} {schema found : Schema} :
    decode origin room (.ofJson schema.toJson) = .ok found ↔
      (Document.ofJson schema.toJson).nesting ≤ room ∧ schema = found := by
  have isString (content : String) : decodeString (.ofJson (.string content)) = .ok content := rfl
  rw [nesting_toJson_le_iff, decode]
  refine decodeRecord_object_eq_ok_iff.trans ?_
  rcases room with _ | _ | room
  · simp
  · have noRoom {others : List Attribute} : decodeList 0 (Attribute.decode origin 0)
        (.ofJson (.array (Attribute.toJsonList schema.attributes))) ≠ .ok others := by
      simp [decodeList_eq_ok_iff]
    simp [Document.ofEntries, storeEntries, fields, RecordField.answersTo, bind_eq_ok_iff, noRoom]
  · have attributes (others : List Attribute) :
        decodeList (room + 1) (Attribute.decode origin room)
            (.ofJson (.array (Attribute.toJsonList schema.attributes))) = .ok others ↔
          (0 < room + 1 ∧ ∀ definition ∈ schema.attributes,
            (Document.ofJson definition.toJson).nesting ≤ room) ∧ schema.attributes = others :=
      Attribute.decodeList_toJson_eq_ok_iff (Attribute.decode_toJson_eq_ok_iff room)
    simp [Document.ofEntries, storeEntries, fields, RecordField.answersTo, bind_eq_ok_iff, isString,
      attributes]

theorem numbers_toJson (schema : Schema) : schema.toJson.numbers = [] := by
  simp [toJson, Json.numbers, Json.entryNumbers, Attribute.numbers_toJsonList]

theorem ordered_toJson (schema : Schema) : schema.toJson.Ordered := by
  have names : ["attributes", "description", "id", "name"].Pairwise (· < ·) := by decide
  exact ⟨names, Attribute.ordered_toJsonList _, trivial, trivial, trivial, trivial⟩

/-- A sound schema has four levels of lists and objects at most. -/
theorem IsSound.nesting_le {schema : Schema} (sound : schema.IsSound) :
    (Document.ofJson schema.toJson).nesting ≤ maxNesting := by
  refine nesting_toJson_le_iff.mpr ⟨by decide, fun definition declared => ?_⟩
  have below : ∀ sub ∈ definition.subAttributes, (Document.ofJson sub.toJson).nesting ≤ 2 := by
    intro sub member
    have flat := (sound.flat _ .whole definition declared sub member).2
    refine Attribute.nesting_toJson_le_iff.mpr ⟨by decide, fun _ => by decide, ?_⟩
    exact fun hasSubs => absurd flat hasSubs
  have inside : (Document.ofJson definition.toJson).nesting ≤ 4 :=
    Attribute.nesting_toJson_le_iff.mpr ⟨by decide, fun _ => by decide, fun _ =>
      ⟨by decide, fun sub member => Nat.add_le_add_right (below sub member) 2⟩⟩
  exact Nat.le_trans (Nat.add_le_add_right inside 2) (by decide)

theorem ofText_eq_ok_iff {text : String} {schema : Schema} :
    ofText text = .ok schema ↔
      decodeText (decode .text maxNesting) text = .ok schema ∧ schema.validate = .ok () := by
  unfold ofText
  constructor
  · intro read
    split at read
    · cases read
    next decoded found =>
      obtain ⟨valid, same⟩ := check_bind_eq_ok_iff.mp read
      cases same
      exact ⟨found, valid⟩
  · rintro ⟨decoded, valid⟩
    rw [decoded]
    exact check_bind_eq_ok_iff.mpr ⟨valid, rfl⟩

/-- A schema is read from its own text if it is valid, and nothing is read otherwise. -/
theorem ofText_text_eq_ok_iff {schema found : Schema} :
    ofText schema.toJson.text = .ok found ↔ schema = found ∧ schema.validate = .ok () := by
  have document : Document.read schema.toJson.text = (.ofJson schema.toJson, true) :=
    Document.read_text (by rw [numbers_toJson]; exact nofun)
  rw [ofText_eq_ok_iff, decodeText_eq_ok_iff, document]
  constructor
  · rintro ⟨⟨_, decoded⟩, valid⟩
    obtain ⟨_, rfl⟩ := decode_toJson_eq_ok_iff.mp decoded
    exact ⟨rfl, valid⟩
  · rintro ⟨rfl, valid⟩
    have room := (validate_eq_ok_iff.mp valid).nesting_le
    exact ⟨⟨rfl, decode_toJson_eq_ok_iff.mpr ⟨room, rfl⟩⟩, valid⟩

end Schema

namespace IndexedSchema

/-- **Schemas survive as documents**: however a schema was put together, and whether or not it is valid,
what is decoded from its document is the same schema with the same indices. On every level these lead to
the first attribute with a name, which is the one that a search finds. The text of a schema is read as
the schema if it is valid, and refused otherwise. -/
theorem ofJson_toJson {indexed : IndexedSchema} (built : indexed.IsBuilt) :
    ofJson indexed.toJson = .ok indexed ∧
      (∀ name, indexed.get? name =
          (indexed.attributes.find? fun found => Text.sameName found.name name) ∧
        (indexed.get? name).map (·.definition) = indexed.schema.find? name) ∧
      (∀ found, indexed.Holds found → ∀ name,
        found.get? name = (found.subAttributes.find? fun sub => Text.sameName sub.name name) ∧
        (found.get? name).map (·.definition) = found.definition.sub? name) ∧
      ∀ read, ofText indexed.toJson.text = .ok read ↔
        indexed = read ∧ indexed.schema.validate = .ok () := by
  -- Whatever was built is what a reader would make, so only that has to be looked at.
  have same := built.eq_ofSchema
  generalize indexed.schema = schema at same
  subst same
  rw [toJson, schema_ofSchema]
  refine ⟨?_, fun name => ⟨get?_ofSchema schema name, definition_get?_ofSchema schema name⟩,
    fun found holds name => ?_, fun read => ⟨fun isRead => ?_, ?_⟩⟩
  · have decoded : Schema.ofJson schema.toJson = .ok schema :=
      Schema.decode_toJson_eq_ok_iff.mpr ⟨Nat.le_refl _, rfl⟩
    rw [ofJson, decoded]
    rfl
  · rw [holds.eq_ofAttribute]
    exact ⟨IndexedAttribute.get?_ofAttribute _ name, IndexedAttribute.definition_get?_ofAttribute _ name⟩
  · rw [ofText] at isRead
    cases found : Schema.ofText schema.toJson.text with
    | error fault =>
      rw [found] at isRead
      cases isRead
    | ok again =>
      obtain ⟨rfl, valid⟩ := Schema.ofText_text_eq_ok_iff.mp found
      rw [found] at isRead
      cases isRead
      exact ⟨rfl, valid⟩
  · rintro ⟨rfl, valid⟩
    rw [ofText, Schema.ofText_text_eq_ok_iff.mpr ⟨rfl, valid⟩]
    rfl

/-- Two attributes and two sub-attributes with one name each make a schema invalid. It survives as a
document, and as a text only without the second ones. -/
theorem ofJson_toJson_card :
    let value := (IndexedAttribute.simple "value" .string).set (.canonicalValues ["work", "home"])
    let twice :=
      (IndexedAttribute.simple "emails" .complex).withSubAttributes [value, .simple "VALUE" .binary]
    let once := (twice.set (.multiValued true)).withSubAttributes [value]
    let invalid := new "urn:acme:2.0:Card" "Card" "" [twice, .simple "Emails" .integer]
    let valid := (new "urn:acme:1.0:Card" "" "" [once]).describe "urn:acme:2.0:Card" "Card" "A card"
    (ofJson invalid.toJson = .ok invalid ∧ invalid.get? "EMAILS" = some twice ∧
        twice.get? "Value" = some value ∧ ∀ read, ofText invalid.toJson.text ≠ .ok read) ∧
      ofText valid.toJson.text = .ok valid ∧ valid.get? "EMAILS" = some once := by
  intro value twice once invalid valid
  have builtValue : value.IsBuilt := .set _ (.simple "value" .string)
  have builtTwice : twice.IsBuilt := by
    refine .withSubAttributes (.simple "emails" .complex) fun sub member => ?_
    simp only [List.mem_cons, List.not_mem_nil, or_false] at member
    rcases member with rfl | rfl
    · exact builtValue
    · exact .simple "VALUE" .binary
  have builtOnce : once.IsBuilt :=
    .withSubAttributes (.set _ builtTwice) (List.forall_mem_singleton.mpr builtValue)
  have builtInvalid : invalid.IsBuilt := by
    refine .new _ _ _ fun found member => ?_
    simp only [List.mem_cons, List.not_mem_nil, or_false] at member
    rcases member with rfl | rfl
    · exact builtTwice
    · exact .simple "Emails" .integer
  have builtValid : valid.IsBuilt :=
    .describe _ _ _ (.new _ _ _ (List.forall_mem_singleton.mpr builtOnce))
  obtain ⟨decoded, found, inside, text⟩ := ofJson_toJson builtInvalid
  obtain ⟨_, foundValid, _, textValid⟩ := ofJson_toJson builtValid
  refine ⟨⟨decoded, ?_, ?_, fun read isRead => ?_⟩, ?_, ?_⟩
  · rw [(found "EMAILS").1, show invalid.attributes = [twice, .simple "Emails" .integer] from rfl]
    exact List.find?_cons_of_pos (by decide)
  · rw [(inside twice (.top List.mem_cons_self) "Value").1,
      show twice.subAttributes = [value, .simple "VALUE" .binary] from rfl]
    exact List.find?_cons_of_pos (by decide)
  · have refused : invalid.schema.validate ≠ .ok () := by decide +kernel
    exact refused ((text read).mp isRead).2
  · exact (textValid valid).mpr ⟨rfl, by decide +kernel⟩
  · rw [(foundValid "EMAILS").1, show valid.attributes = [once] from rfl]
    exact List.find?_cons_of_pos (by decide)

end IndexedSchema

end Scim
