import Scim.Proofs.Json.Written
import Scim.Proofs.Resource.Entries

/-!
# Values of documents

A value that is read from a document has its objects in order, is nested no deeper than there is room
for, and holds no numbers but those of the document, each of which can be held if the document was read
from a text. A value that is in order itself is the value of its own document, given room for its
nesting.
-/

namespace Scim.Json

namespace Document

variable {items : List Document} {entries : List (Option String × Document)} {room : Nat}

/-! ### Parts -/

theorem ofItems_eq_map (items : List Json) : ofItems items = items.map ofJson := by
  induction items with
  | nil => rfl
  | cons item rest ih => rw [ofItems, List.map_cons, ih]

theorem ofEntries_eq_map (entries : Object) :
    ofEntries entries = entries.map fun entry => (some entry.1, ofJson entry.2) := by
  induction entries with
  | nil => rfl
  | cons entry rest ih => rw [ofEntries, List.map_cons, ih]

theorem nestingOfItems_le_iff : nestingOfItems items ≤ room ↔ ∀ item ∈ items, item.nesting ≤ room := by
  induction items with
  | nil => simp [nestingOfItems]
  | cons item rest ih => rw [nestingOfItems, Nat.max_le, ih, List.forall_mem_cons]

theorem nestingOfEntries_le_iff :
    nestingOfEntries entries ≤ room ↔ ∀ entry ∈ entries, entry.2.nesting ≤ room := by
  induction entries with
  | nil => simp [nestingOfEntries]
  | cons entry rest ih => rw [nestingOfEntries, Nat.max_le, ih, List.forall_mem_cons]

/-- An array takes one level, and its items the levels below. -/
theorem nesting_array_le_iff {items : List Json} :
    (ofJson (.array items)).nesting ≤ room ↔
      0 < room ∧ ∀ item ∈ items, (ofJson item).nesting + 1 ≤ room := by
  rw [ofJson, nesting, ofItems_eq_map]
  cases room with
  | zero => simp
  | succ room => simp [nestingOfItems_le_iff]

theorem nesting_object_le_iff {entries : Object} :
    (ofJson (.object entries)).nesting ≤ room ↔
      0 < room ∧ ∀ entry ∈ entries, (ofJson entry.2).nesting + 1 ≤ room := by
  rw [ofJson, nesting, ofEntries_eq_map]
  cases room with
  | zero => simp
  | succ room =>
    rw [Nat.add_le_add_iff_right, nestingOfEntries_le_iff, List.forall_mem_map]
    simp

mutual

/-- The numbers that a document holds, as far as they have a value. -/
def numbers : Document → List Number
  | .number (some value) => [value]
  | .array items _ => itemNumbers items
  | .object entries _ => entryNumbers entries
  | _ => []

def itemNumbers : List Document → List Number
  | [] => []
  | item :: rest => numbers item ++ itemNumbers rest

def entryNumbers : List (Option String × Document) → List Number
  | [] => []
  | (_, value) :: rest => numbers value ++ entryNumbers rest

end

theorem mem_itemNumbers_iff {n : Number} : n ∈ itemNumbers items ↔ ∃ item ∈ items, n ∈ item.numbers := by
  induction items with
  | nil => simp [itemNumbers]
  | cons item rest ih => simp [itemNumbers, ih]

theorem mem_entryNumbers_iff {n : Number} :
    n ∈ entryNumbers entries ↔ ∃ entry ∈ entries, n ∈ entry.2.numbers := by
  induction entries with
  | nil => simp [entryNumbers]
  | cons entry rest ih => simp [entryNumbers, ih]

end Document

theorem mem_itemNumbers_iff {items : List Json} {n : Number} :
    n ∈ itemNumbers items ↔ ∃ item ∈ items, n ∈ item.numbers := by
  induction items with
  | nil => simp [itemNumbers]
  | cons item rest ih => simp [itemNumbers, ih]

theorem mem_entryNumbers_iff {entries : Object} {n : Number} :
    n ∈ entryNumbers entries ↔ ∃ entry ∈ entries, n ∈ entry.2.numbers := by
  induction entries with
  | nil => simp [entryNumbers]
  | cons entry rest ih => simp [entryNumbers, ih]

/-! ### What is read from a document -/

/-- What holds of the value of a document in which arrays and objects are nested at most `room` deep.
-/
structure IsValueOf (document : Document) (room : Nat) (value : Json) : Prop where
  ordered : value.Ordered
  nested : (Document.ofJson value).nesting ≤ room
  numbers : ∀ n ∈ value.numbers, n ∈ document.numbers

theorem IsValueOf.array {items : List Document} {closed : Bool} {room : Nat} {values : List Json}
    (each : ∀ value ∈ values, ∃ item ∈ items, IsValueOf item room value) :
    IsValueOf (.array items closed) (room + 1) (.array values) := by
  refine ⟨ordered_array_iff.mpr fun value member => ?_, ?_, fun n member => ?_⟩
  · obtain ⟨_, _, is⟩ := each value member
    exact is.ordered
  · refine Document.nesting_array_le_iff.mpr ⟨Nat.succ_pos room, fun value member => ?_⟩
    obtain ⟨_, _, is⟩ := each value member
    exact Nat.succ_le_succ is.nested
  · obtain ⟨value, isItem, inValue⟩ := mem_itemNumbers_iff.mp member
    obtain ⟨item, item_mem, is⟩ := each value isItem
    exact Document.mem_itemNumbers_iff.mpr ⟨item, item_mem, is.numbers n inValue⟩

/-- The entries of a value stand in their own order, and of several with one key the last one stays. -/
theorem IsValueOf.object {entries : List (Option String × Document)} {closed : Bool} {room : Nat}
    {values : Object} (each : ∀ value ∈ values, ∃ entry ∈ entries, IsValueOf entry.2 room value.2) :
    IsValueOf (.object entries closed) (room + 1) (.object (Object.ofEntries values)) := by
  have left {value : String × Json} (member : value ∈ Object.ofEntries values) :=
    each value (Object.mem_ofEntries member)
  refine ⟨ordered_object_iff.mpr ⟨Object.sorted_ofEntries values, fun value member => ?_⟩, ?_,
    fun n member => ?_⟩
  · obtain ⟨_, _, is⟩ := left member
    exact is.ordered
  · refine Document.nesting_object_le_iff.mpr ⟨Nat.succ_pos room, fun value member => ?_⟩
    obtain ⟨_, _, is⟩ := left member
    exact Nat.succ_le_succ is.nested
  · obtain ⟨value, isEntry, inValue⟩ := mem_entryNumbers_iff.mp member
    obtain ⟨entry, entry_mem, is⟩ := left isEntry
    exact Document.mem_entryNumbers_iff.mpr ⟨entry, entry_mem, is.numbers n inValue⟩

namespace Document

mutual

theorem isValueOf_of_value? : ∀ (document : Document) (room : Nat) (value : Json),
    document.value? room = some value → IsValueOf document room value
  | .null, room, value, read => by
    cases read
    exact ⟨trivial, Nat.zero_le _, nofun⟩
  | .bool _, room, value, read => by
    cases read
    exact ⟨trivial, Nat.zero_le _, nofun⟩
  | .number (some n), room, value, read => by
    cases read
    exact ⟨trivial, Nat.zero_le _, fun _ member => member⟩
  | .string (some content), room, value, read => by
    cases read
    exact ⟨trivial, Nat.zero_le _, nofun⟩
  | .array items closed, room + 1, value, read => by
    obtain ⟨_, isValue⟩ := Option.ite_none_right_eq_some.mp read
    obtain ⟨values, found, rfl⟩ := Option.map_eq_some_iff.mp isValue
    exact .array (isValueOf_of_itemValues? items room values found)
  | .object entries closed, room + 1, value, read => by
    obtain ⟨_, isValue⟩ := Option.ite_none_right_eq_some.mp read
    obtain ⟨values, found, rfl⟩ := Option.map_eq_some_iff.mp isValue
    exact .object (isValueOf_of_entryValues? entries room values found)

theorem isValueOf_of_itemValues? : ∀ (items : List Document) (room : Nat) (values : List Json),
    itemValues? room items = some values →
      ∀ value ∈ values, ∃ item ∈ items, IsValueOf item room value
  | [], room, values, read => by
    cases read
    exact nofun
  | item :: rest, room, values, read => by
    simp only [itemValues?, Option.bind_eq_bind, Option.bind_eq_some_iff, Option.pure_def,
      Option.some.injEq] at read
    obtain ⟨first, isFirst, others, areOthers, rfl⟩ := read
    refine List.forall_mem_cons.mpr ⟨⟨item, List.mem_cons_self, ?_⟩, fun value member => ?_⟩
    · exact isValueOf_of_value? item room first isFirst
    · obtain ⟨other, other_mem, is⟩ := isValueOf_of_itemValues? rest room others areOthers value member
      exact ⟨other, List.mem_cons_of_mem _ other_mem, is⟩

theorem isValueOf_of_entryValues? : ∀ (entries : List (Option String × Document)) (room : Nat)
    (values : List (String × Json)), entryValues? room entries = some values →
      ∀ value ∈ values, ∃ entry ∈ entries, IsValueOf entry.2 room value.2
  | [], room, values, read => by
    cases read
    exact nofun
  | (key, document) :: rest, room, values, read => by
    simp only [entryValues?, Option.bind_eq_bind, Option.bind_eq_some_iff, Option.pure_def,
      Option.some.injEq] at read
    obtain ⟨name, _, first, isFirst, others, areOthers, rfl⟩ := read
    refine List.forall_mem_cons.mpr ⟨⟨(key, document), List.mem_cons_self, ?_⟩, fun value member => ?_⟩
    · exact isValueOf_of_value? document room first isFirst
    · obtain ⟨other, other_mem, is⟩ :=
        isValueOf_of_entryValues? rest room others areOthers value member
      exact ⟨other, List.mem_cons_of_mem _ other_mem, is⟩

end

/-- Only `null` has the value `null`. -/
theorem eq_null_of_value? {document : Document} (read : document.value? room = some .null) :
    document = .null := by
  cases document with
  | null => rfl
  | bool value => cases read
  | number value => cases value <;> cases read
  | string content => cases content <;> cases read
  | array items closed =>
    cases room with
    | zero => cases read
    | succ room =>
      obtain ⟨_, read⟩ := Option.ite_none_right_eq_some.mp read
      obtain ⟨_, _, impossible⟩ := Option.map_eq_some_iff.mp read
      cases impossible
  | object entries closed =>
    cases room with
    | zero => cases read
    | succ room =>
      obtain ⟨_, read⟩ := Option.ite_none_right_eq_some.mp read
      obtain ⟨_, _, impossible⟩ := Option.map_eq_some_iff.mp read
      cases impossible
  | broken => cases read

/-! ### The value of its own document -/

mutual

theorem value?_ofJson : ∀ (value : Json) (room : Nat), value.Ordered → (ofJson value).nesting ≤ room →
    (ofJson value).value? room = some value
  | .null, _, _, _ => rfl
  | .bool _, _, _, _ => rfl
  | .number _, _, _, _ => rfl
  | .string _, _, _, _ => rfl
  | .array items, room + 1, ordered, nested => by
    rw [ofJson, nesting, Nat.add_le_add_iff_right] at nested
    have read := itemValues?_ofItems items room ordered nested
    simp [ofJson, value?, read]
  | .object entries, room + 1, ⟨sorted, ordered⟩, nested => by
    rw [ofJson, nesting, Nat.add_le_add_iff_right] at nested
    have read := entryValues?_ofEntries entries room ordered nested
    simp [ofJson, value?, read, Object.ofEntries_of_sorted sorted]

theorem itemValues?_ofItems : ∀ (items : List Json) (room : Nat), OrderedItems items →
    nestingOfItems (ofItems items) ≤ room → itemValues? room (ofItems items) = some items
  | [], _, _, _ => rfl
  | item :: rest, room, ⟨first, others⟩, nested => by
    obtain ⟨nestedFirst, nestedOthers⟩ := Nat.max_le.mp nested
    have read := value?_ofJson item room first nestedFirst
    have readOthers := itemValues?_ofItems rest room others nestedOthers
    simp [ofItems, itemValues?, read, readOthers]

theorem entryValues?_ofEntries : ∀ (entries : Object) (room : Nat), OrderedEntries entries →
    nestingOfEntries (ofEntries entries) ≤ room →
    entryValues? room (ofEntries entries) = some entries
  | [], _, _, _ => rfl
  | (key, value) :: rest, room, ⟨first, others⟩, nested => by
    obtain ⟨nestedFirst, nestedOthers⟩ := Nat.max_le.mp nested
    have read := value?_ofJson value room first nestedFirst
    have readOthers := entryValues?_ofEntries rest room others nestedOthers
    simp [ofEntries, entryValues?, read, readOthers]

end

end Document

/-! ### Numbers of texts -/

/-- The numbers of a document are numbers that documents can hold. -/
def Document.IsHeld (document : Document) : Prop := ∀ n ∈ document.numbers, n.IsRepresentable

theorem Document.isHeld_of_numbers_eq_nil {document : Document} (none : document.numbers = []) :
    document.IsHeld := by
  intro n member
  rw [none] at member
  cases member

theorem isHeld_readSimple (text : List Char) : (readSimple text).1.IsHeld := by
  unfold readSimple
  split
  next word value found =>
    have isWord := List.mem_of_find?_eq_some found
    simp only [keywords, List.mem_cons, Prod.mk.injEq, List.not_mem_nil, or_false] at isWord
    rcases isWord with ⟨_, rfl⟩ | ⟨_, rfl⟩ | ⟨_, rfl⟩ <;> exact Document.isHeld_of_numbers_eq_nil rfl
  · split
    next literal _ _ =>
      cases isValue : literal.value? with
      | none => exact Document.isHeld_of_numbers_eq_nil rfl
      | some value =>
        intro n member
        obtain rfl := List.mem_singleton.mp member
        exact Number.isRepresentable_of_value? isValue
    · exact Document.isHeld_of_numbers_eq_nil rfl

mutual

theorem isHeld_readValue : ∀ (steps : Nat) (text : List Char), (readValue steps text).1.IsHeld
  | 0, text => Document.isHeld_of_numbers_eq_nil rfl
  | steps + 1, text => by
    rw [readValue]
    split
    · split <;> exact Document.isHeld_of_numbers_eq_nil rfl
    · split
      · exact Document.isHeld_of_numbers_eq_nil rfl
      · exact isHeld_readItems steps _
    · split
      · exact Document.isHeld_of_numbers_eq_nil rfl
      · exact isHeld_readEntries steps _
    · exact isHeld_readSimple _

theorem isHeld_readItems : ∀ (steps : Nat) (text : List Char),
    ∀ n ∈ Document.itemNumbers (readItems steps text).1, n.IsRepresentable
  | 0, text => nofun
  | steps + 1, text => by
    have first := isHeld_readValue steps text
    rw [readItems]
    split
    next item read =>
      rw [read] at first
      simpa [Document.IsHeld, Document.itemNumbers] using first
    next item rest read =>
      rw [read] at first
      split
      · simpa [Document.IsHeld, Document.itemNumbers] using first
      · have others := isHeld_readItems steps
        simp only [Document.itemNumbers, List.forall_mem_append]
        exact ⟨first, others _⟩
      · simpa [Document.IsHeld, Document.itemNumbers] using first

theorem isHeld_readEntries : ∀ (steps : Nat) (text : List Char),
    ∀ n ∈ Document.entryNumbers (readEntries steps text).1, n.IsRepresentable
  | 0, text => nofun
  | steps + 1, text => by
    rw [readEntries]
    split
    · split
      · exact nofun
      · split
        next behind _ =>
          have first := isHeld_readValue steps behind
          split
          next value read =>
            rw [read] at first
            simpa [Document.IsHeld, Document.entryNumbers] using first
          next value rest read =>
            rw [read] at first
            split
            · simpa [Document.IsHeld, Document.entryNumbers] using first
            · have others := isHeld_readEntries steps
              simp only [Document.entryNumbers, List.forall_mem_append]
              exact ⟨first, others _⟩
            · simpa [Document.IsHeld, Document.entryNumbers] using first
        · exact nofun
    · exact nofun

end

/-- A document that is read from a text holds no numbers that could not be held. -/
theorem isHeld_read (text : String) : (Document.read text).1.IsHeld := by
  have held := isHeld_readValue (2 * text.toList.length + 2) text.toList
  unfold Document.read
  split
  next read =>
    rw [read] at held
    exact held
  next read =>
    rw [read] at held
    exact held

end Scim.Json
