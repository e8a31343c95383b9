import Mathlib.Data.List.Forall2
import Scim.Json.Decode
import Scim.Proofs.Except
import Scim.Proofs.Json.Values

/-!
# What is decoded

One lemma for each decoder says which documents it accepts and what it makes of them. A record is
built from its defaults, field by field, so what the defaults satisfy and every field keeps holds of
all records that are decoded.
-/

namespace Scim.Json

/-! ### Single values and lists -/

section Values

variable {α : Type} {decode : Decoder α} {document : Document} {room : Nat}

theorem decodeString_eq_ok_iff {content : String} :
    decodeString document = .ok content ↔ document = .string (some content) := by
  unfold decodeString
  split
  · simp
  next notString =>
    constructor
    · intro decoded
      cases decoded
    · exact fun is => absurd is (notString content)

theorem decodeValue_eq_ok_iff {value : Json} :
    decodeValue room document = .ok value ↔ document.value? room = some value := by
  unfold decodeValue
  split
  next found => simp [found]
  next absent => simp [absent]

theorem decodeParsed_eq_ok_iff {parse : String → Except String α} {value : α} :
    decodeParsed parse document = .ok value ↔
      ∃ content, document = .string (some content) ∧ parse content = .ok value := by
  unfold decodeParsed
  rw [bind_eq_ok_iff]
  apply exists_congr
  intro content
  rw [decodeString_eq_ok_iff]
  apply and_congr_right
  intro _
  split
  next parsed => simp [parsed, pure, Except.pure]
  next failed => simp [failed, throw, throwThe, MonadExceptOf.throw]

/-- Only `null` stands for an absent value. -/
theorem decodeOptional_eq_ok_iff {value : Option α} :
    decodeOptional decode document = .ok value ↔
      document = .null ∧ value = none ∨
        document ≠ .null ∧ ∃ content, decode document = .ok content ∧ value = some content := by
  cases document with
  | null => simp [decodeOptional, eq_comm]
  | _ =>
    simp only [decodeOptional, reduceCtorEq, false_and, false_or, ne_eq, not_false_eq_true, true_and]
    cases decode _ with
    | ok content => simp [Except.map, eq_comm]
    | error fault => simp [Except.map]

theorem mapM_eq_ok_iff {ε β : Type} {step : α → Except ε β} {items : List α} {values : List β} :
    items.mapM step = .ok values ↔
      List.Forall₂ (fun item value => step item = .ok value) items values := by
  induction items generalizing values with
  | nil =>
    simp [pure, Except.pure, eq_comm]
  | cons item rest ih =>
    rw [List.mapM_cons, bind_eq_ok_iff, List.forall₂_cons_left_iff]
    apply exists_congr
    intro first
    rw [bind_eq_ok_iff]
    constructor
    · rintro ⟨isFirst, others, areOthers, same⟩
      cases same
      exact ⟨others, isFirst, ih.mp areOthers, rfl⟩
    · rintro ⟨others, isFirst, areOthers, rfl⟩
      exact ⟨isFirst, others, ih.mpr areOthers, rfl⟩

theorem decodeList_eq_ok_iff {values : List α} :
    decodeList room decode document = .ok values ↔
      0 < room ∧ ∃ items, document = .array items true ∧
        List.Forall₂ (fun item value => decode item = .ok value) items values := by
  cases document with
  | array items closed =>
    rw [decodeList, Nat.pos_iff_ne_zero]
    constructor
    · intro decoded
      split at decoded
      · cases decoded
      next open_ =>
        obtain ⟨found, each, decoded⟩ := bind_eq_ok_iff.mp decoded
        split at decoded
        next isClosed =>
          cases decoded
          exact ⟨open_, items, by rw [isClosed], mapM_eq_ok_iff.mp each⟩
        · cases decoded
    · rintro ⟨open_, _, same, each⟩
      cases same
      rw [if_neg open_]
      exact bind_eq_ok_iff.mpr ⟨values, mapM_eq_ok_iff.mpr each, rfl⟩
  | _ => simp [decodeList]

/-- Every value of a list was decoded from an item. -/
theorem exists_of_mem_decoded {items : List Document} {values : List α}
    (each : List.Forall₂ (fun item value => decode item = .ok value) items values) {value : α}
    (member : value ∈ values) : ∃ item ∈ items, decode item = .ok value := by
  induction each with
  | nil => cases member
  | cons first _ ih =>
    rcases List.mem_cons.mp member with rfl | behind
    · exact ⟨_, List.mem_cons_self, first⟩
    · obtain ⟨item, isItem, decoded⟩ := ih behind
      exact ⟨item, List.mem_cons_of_mem _ isItem, decoded⟩

/-- A list that was encoded is decoded item by item. -/
theorem decodeList_map_eq_ok_iff {β : Type} {encode : β → Json} {values : List β} {results : List α} :
    decodeList room decode (.ofJson (.array (values.map encode))) = .ok results ↔
      0 < room ∧
        List.Forall₂ (fun value result => decode (.ofJson (encode value)) = .ok result) values
          results := by
  rw [decodeList_eq_ok_iff, Document.ofJson, Document.ofItems_eq_map, List.map_map]
  apply and_congr_right
  intro _
  constructor
  · rintro ⟨_, same, each⟩
    cases same
    exact List.forall₂_map_left_iff.mp each
  · exact fun each => ⟨_, rfl, List.forall₂_map_left_iff.mpr each⟩

theorem decodeList_map {β : Type} {encode : β → Json} {decode : Decoder β} {values : List β}
    (open_ : 0 < room) (each : ∀ value ∈ values, decode (.ofJson (encode value)) = .ok value) :
    decodeList room decode (.ofJson (.array (values.map encode))) = .ok values :=
  decodeList_map_eq_ok_iff.mpr ⟨open_, List.forall₂_same.mpr each⟩

/-- A text is decoded if its document is and nothing follows it. -/
theorem decodeText_eq_ok_iff {text : String} {value : α} :
    decodeText decode text = .ok value ↔
      (Document.read text).2 = true ∧ decode (Document.read text).1 = .ok value := by
  unfold decodeText
  simp only [bind_eq_ok_iff]
  constructor
  · rintro ⟨found, decoded, rest⟩
    split at rest
    next ended =>
      cases rest
      exact ⟨ended, decoded⟩
    · cases rest
  · rintro ⟨ended, decoded⟩
    exact ⟨value, decoded, by rw [if_pos ended]; rfl⟩

end Values

/-! ### Records -/

section Records

variable {Record : Type} {fields : List (RecordField Record)} {origin : Origin} {room : Nat}
  {record defaults : Record} {stored : List String}

/-- A whole object is decoded if all its entries are stored and no field that is required is missing. -/
theorem decodeRecord_object_eq_ok_iff {entries : List (Option String × Document)} :
    decodeRecord origin room fields defaults (.object entries true) = .ok record ↔
      0 < room ∧ ∃ stored, storeEntries fields defaults [] entries = .ok (record, stored) ∧
        ∀ field ∈ fields, field.required = true → field.name ∈ stored := by
  have missing (stored : List String) :
      fields.find? (fun field => field.required && !stored.contains field.name) = none ↔
        ∀ field ∈ fields, field.required = true → field.name ∈ stored := by
    simp [List.find?_eq_none]
  rw [decodeRecord, Nat.pos_iff_ne_zero]
  constructor
  · intro decoded
    split at decoded
    · cases decoded
    next open_ =>
      obtain ⟨⟨found, stored⟩, each, decoded⟩ := bind_eq_ok_iff.mp decoded
      simp only [Bool.not_true, Bool.false_eq_true, if_false] at decoded
      split at decoded
      · cases decoded
      next none =>
        cases decoded
        exact ⟨open_, stored, each, (missing stored).mp none⟩
  · rintro ⟨open_, stored, each, complete⟩
    rw [if_neg open_]
    refine bind_eq_ok_iff.mpr ⟨(record, stored), each, ?_⟩
    simp only [(missing stored).mpr complete]
    rfl

/-! ### What all decoded records have in common -/

/-- The documents from which the fields of a record are decoded. -/
def Document.parts : Document → List Document
  | .array items _ => items
  | .object entries _ => entries.map (·.2)
  | _ => []

theorem Document.numbers_of_mem_parts {document part : Document} (member : part ∈ document.parts)
    {n : Number} (inPart : n ∈ part.numbers) : n ∈ document.numbers := by
  cases document with
  | array items closed => exact mem_itemNumbers_iff.mpr ⟨part, member, inPart⟩
  | object entries closed =>
    obtain ⟨entry, isEntry, rfl⟩ := List.mem_map.mp member
    exact mem_entryNumbers_iff.mpr ⟨entry, isEntry, inPart⟩
  | _ => cases member

section Invariant

variable {P : Record → Prop} {documents : List Document}

/-- Whatever field is stored from some documents, the record keeps a property. -/
def Keeps (P : Record → Prop) (fields : List (RecordField Record)) (documents : List Document) : Prop :=
  ∀ field ∈ fields, ∀ document ∈ documents, ∀ before after, P before →
    field.store document before = .ok after → P after

theorem storeEntries_keeps {entries : List (Option String × Document)} {result : Record × List String}
    (keeps : Keeps P fields (entries.map (·.2)))
    (decoded : storeEntries fields record stored entries = .ok result) (holds : P record) :
    P result.1 := by
  induction entries generalizing record stored with
  | nil =>
    cases decoded
    exact holds
  | cons entry rest ih =>
    obtain ⟨key, document⟩ := entry
    have others : Keeps P fields (rest.map (·.2)) := fun field isField part member =>
      keeps field isField part (List.mem_cons_of_mem _ member)
    cases key with
    | none => cases decoded
    | some key =>
      rw [storeEntries] at decoded
      split at decoded
      · split at decoded
        · exact ih others decoded holds
        · cases decoded
      next field found =>
        split at decoded
        · cases decoded
        · obtain ⟨next, isNext, decoded⟩ := bind_eq_ok_iff.mp decoded
          have isField := List.mem_of_find?_eq_some found
          have kept := keeps field isField document List.mem_cons_self record next holds isNext
          exact ih others decoded kept

theorem storeItems_keeps {closed : Bool} {items : List Document} {result : Record}
    (keeps : Keeps P fields items)
    (decoded : storeItems origin closed record fields items = .ok result) (holds : P record) :
    P result := by
  -- The items of an array go to the fields in their order, so both lists get shorter together.
  induction fields generalizing record items with
  | nil =>
    cases items with
    | nil =>
      rw [storeItems] at decoded
      split at decoded
      · cases decoded
        exact holds
      · cases decoded
    | cons item items => cases decoded
  | cons field fields ih =>
    have others {items' : List Document} (sub : items' ⊆ items) : Keeps P fields items' :=
      fun other isField part member => keeps other (List.mem_cons_of_mem _ isField) part (sub member)
    cases items with
    | nil =>
      rw [storeItems] at decoded
      split at decoded
      · cases decoded
      · split at decoded
        · cases decoded
        · exact ih (others (List.Subset.refl _)) decoded holds
    | cons item items =>
      obtain ⟨next, isNext, decoded⟩ := bind_eq_ok_iff.mp decoded
      exact ih (others (List.subset_cons_self _ _)) decoded
        (keeps field List.mem_cons_self item List.mem_cons_self record next holds isNext)

/-- What the defaults satisfy and every field keeps holds of a decoded record. -/
theorem decodeRecord_keeps {document : Document} (keeps : Keeps P fields document.parts)
    (decoded : decodeRecord origin room fields defaults document = .ok record) (holds : P defaults) :
    P record := by
  cases document with
  | object entries closed =>
    rw [decodeRecord] at decoded
    split at decoded
    · cases decoded
    · obtain ⟨⟨found, stored⟩, each, decoded⟩ := bind_eq_ok_iff.mp decoded
      have held := storeEntries_keeps keeps each holds
      simp only at decoded
      split at decoded
      · cases decoded
      · split at decoded
        · cases decoded
        · cases decoded
          exact held
  | array items closed =>
    rw [decodeRecord] at decoded
    split at decoded
    · cases decoded
    · exact storeItems_keeps keeps decoded holds
  | _ => cases decoded

end Invariant

end Records

end Scim.Json
