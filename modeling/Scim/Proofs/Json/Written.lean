import Scim.Json.Document
import Scim.Proofs.Json.NumberLiteral
import Scim.Proofs.Json.ReadBack

/-!
# Documents of written values

The compact text of a value is read as the document of that value, to its last character. What stands
behind the text is left alone, so that a value is read in the same way inside an array or an object.
The one thing that is asked of the value is that its numbers are read back from their own texts, which
holds of all integers that a document can hold, and of most floating point numbers.
-/

namespace Scim.Json

/-! ### Numbers in front of other text -/

/-- What may stand behind a number, since it cannot be taken for a part of it. -/
def EndsNumber (rest : List Char) : Prop := ∀ c, rest.head? = some c → isNumberChar c = false

theorem endsNumber_nil : EndsNumber [] := nofun

theorem endsNumber_cons {c : Char} (other : isNumberChar c = false) (rest : List Char) :
    EndsNumber (c :: rest) := by
  intro first is
  cases is
  exact other

section Append

variable {text rest after : List Char}

theorem spanDigits_append (ends : EndsNumber rest) (text : List Char) :
    spanDigits (text ++ rest) = ((spanDigits text).1, (spanDigits text).2 ++ rest) := by
  induction text with
  | nil =>
    cases rest with
    | nil => rfl
    | cons c rest =>
      have notDigit : c.isDigit = false := by
        have other := ends c rfl
        simp only [isNumberChar, Bool.or_eq_false_iff] at other
        exact other.1
      simp [spanDigits, notDigit]
  | cons c text ih =>
    simp only [spanDigits, Prod.mk.injEq] at ih
    by_cases digit : c.isDigit = true
    · simp [spanDigits, digit, ih]
    · simp [spanDigits, digit]

namespace NumberLiteral

theorem scanFraction_append (ends : EndsNumber rest) {digits : List Nat}
    (scanned : scanFraction text = some (digits, after)) :
    scanFraction (text ++ rest) = some (digits, after ++ rest) := by
  unfold scanFraction at scanned
  split at scanned
  next following =>
    split at scanned
    · cases scanned
    next whole notNone split =>
      cases scanned
      simp [scanFraction, spanDigits_append ends, split]
  next noPoint =>
    cases scanned
    unfold scanFraction
    split
    next following starts =>
      -- The point would have to stand in what follows.
      cases text with
      | nil =>
        have other := ends '.' (by simp [show rest = '.' :: following from starts])
        simp [isNumberChar] at other
      | cons c text =>
        cases starts
        exact absurd rfl (noPoint text)
    · rfl

theorem scanExponentDigits_append (ends : EndsNumber rest) {sign : Int} {exponent : Option Int}
    (scanned : scanExponentDigits sign text = some (exponent, after)) :
    scanExponentDigits sign (text ++ rest) = some (exponent, after ++ rest) := by
  unfold scanExponentDigits at scanned ⊢
  rw [spanDigits_append ends]
  split at scanned
  · cases scanned
  next whole notNone split =>
    cases scanned
    simp [split]

theorem scanExponent_append (ends : EndsNumber rest) {exponent : Option Int}
    (scanned : scanExponent text = some (exponent, after)) :
    scanExponent (text ++ rest) = some (exponent, after ++ rest) := by
  cases text with
  | nil =>
    cases scanned
    cases rest with
    | nil => rfl
    | cons c rest =>
      have other := ends c rfl
      have notMark : ¬(c = 'e' ∨ c = 'E') := by
        rintro (rfl | rfl) <;> simp [isNumberChar] at other
      simp [scanExponent, notMark]
  | cons c text =>
    simp only [scanExponent, List.cons_append] at scanned ⊢
    split at scanned
    next mark =>
      rw [if_pos mark]
      cases text with
      | nil => cases scanned
      | cons first digits =>
        split at scanned
        next behind same =>
          cases same
          exact scanExponentDigits_append ends scanned
        next behind same =>
          cases same
          exact scanExponentDigits_append ends scanned
        next noPlus noMinus =>
          rw [List.cons_append]
          split
          next _ same =>
            cases same
            exact absurd rfl (noPlus digits)
          next _ same =>
            cases same
            exact absurd rfl (noMinus digits)
          next => exact scanExponentDigits_append ends scanned
    next noMark =>
      cases scanned
      rw [if_neg noMark, List.cons_append]

theorem scanUnsigned_append (ends : EndsNumber rest) {negative : Bool} {literal : NumberLiteral}
    (scanned : scanUnsigned negative text = some (literal, after)) :
    scanUnsigned negative (text ++ rest) = some (literal, after ++ rest) := by
  unfold scanUnsigned at scanned ⊢
  rw [spanDigits_append ends]
  split at scanned
  · cases scanned
  · cases scanned
  next whole behind notNone notPadded split =>
    rw [split]
    simp only [Option.bind_eq_bind, Option.bind_eq_some_iff, Prod.exists] at scanned ⊢
    obtain ⟨digits, between, fraction, exponent, last, found, same⟩ := scanned
    cases same
    exact ⟨_, _, scanFraction_append ends fraction, _, _, scanExponent_append ends found, rfl⟩

/-- A literal ends where it ended before, if nothing that follows can be taken for a part of it. -/
theorem scan_append (ends : EndsNumber rest) {literal : NumberLiteral}
    (scanned : scan text = some (literal, after)) :
    scan (text ++ rest) = some (literal, after ++ rest) := by
  cases text with
  | nil => cases scanned
  | cons c text =>
    rw [List.cons_append]
    unfold scan at scanned ⊢
    split at scanned
    next following same =>
      cases same
      exact scanUnsigned_append ends scanned
    next noSign =>
      split
      next following same =>
        cases same
        exact absurd rfl (noSign text)
      next => exact scanUnsigned_append ends scanned

end NumberLiteral

/-- A number is read whatever follows it, as long as that ends the number. -/
theorem scan_of_readNumber? (ends : EndsNumber rest) {value : Number}
    (read : readNumber? text = some value) :
    ∃ literal, NumberLiteral.scan (text ++ rest) = some (literal, rest) ∧
      literal.value? = some value := by
  unfold readNumber? at read
  split at read
  next literal scanned =>
    exact ⟨literal, by simpa using NumberLiteral.scan_append ends scanned, read⟩
  · cases read

end Append

/-! ### The numbers of a value -/

mutual

/-- The numbers that a value holds. -/
def numbers : Json → List Number
  | .number value => [value]
  | .array items => itemNumbers items
  | .object entries => entryNumbers entries
  | _ => []

def itemNumbers : List Json → List Number
  | [] => []
  | item :: rest => numbers item ++ itemNumbers rest

def entryNumbers : Object → List Number
  | [] => []
  | (_, value) :: rest => numbers value ++ entryNumbers rest

end

end Json

/-- The text of a number is read back as this number. -/
def Number.ReadsBack (value : Number) : Prop := Json.readNumber? value.text.toList = some value

namespace Json

/-! ### The first character -/

/-- Whether a character can be the first one of a written value. -/
def startsValue (c : Char) : Bool := isNumberChar c || ['n', 't', 'f', '"', '[', '\x7b'].contains c

theorem exists_cons_of_written {value : Json} (readsBack : ∀ n ∈ value.numbers, n.ReadsBack) :
    ∃ c tail, value.written = c :: tail ∧ startsValue c = true := by
  cases value with
  | null => exact ⟨_, _, rfl, rfl⟩
  | bool value => cases value <;> exact ⟨_, _, rfl, rfl⟩
  | number value =>
    have read : readNumber? value.text.toList = some value := readsBack value (by simp [numbers])
    obtain ⟨c, tail, text⟩ := List.exists_cons_of_ne_nil (ne_nil_of_readNumber? read)
    have isChar := isNumberChar_of_readNumber? read c (by simp [text])
    exact ⟨c, tail, text, by simp [startsValue, isChar]⟩
  | string value => exact ⟨_, _, rfl, rfl⟩
  | array items => exact ⟨_, _, rfl, rfl⟩
  | object entries => exact ⟨_, _, rfl, rfl⟩

theorem skipSpace_cons {c : Char} (starts : startsValue c = true) (rest : List Char) :
    skipSpace (c :: rest) = c :: rest := by
  have notSpace : isJsonSpace c = false := by
    refine Bool.eq_false_iff.mpr fun space => ?_
    simp only [isJsonSpace, Bool.or_eq_true, beq_iff_eq] at space
    rcases space with ((rfl | rfl) | rfl) | rfl <;> cases starts
  simp [skipSpace, notSpace]

/-- A number is told from everything else by its first character. -/
theorem readValue_number {text rest : List Char} {value : Number} (read : readNumber? text = some value)
    (ends : EndsNumber rest) (steps : Nat) :
    readValue (steps + 1) (text ++ rest) = (.number (some value), some rest) := by
  obtain ⟨literal, scanned, isValue⟩ := scan_of_readNumber? ends read
  obtain ⟨c, tail, rfl⟩ := List.exists_cons_of_ne_nil (ne_nil_of_readNumber? read)
  have isChar := isNumberChar_of_readNumber? read c List.mem_cons_self
  have simple : readSimple (c :: tail ++ rest) = (.number (some value), some rest) := by
    have noWord : keywords.find? (·.1.isPrefixOf (c :: tail ++ rest)) = none := by
      -- A keyword starts with a letter that no number has in it.
      rw [List.find?_eq_none]
      intro word member isPrefix
      simp only [keywords, List.mem_cons, List.not_mem_nil, or_false] at member
      rcases member with rfl | rfl | rfl <;>
      · simp only [List.cons_append, List.isPrefixOf, Bool.and_eq_true, beq_iff_eq] at isPrefix
        obtain ⟨rfl, _⟩ := isPrefix
        cases isChar
    rw [readSimple, noWord, scanned]
    simp [isValue]
  rw [List.cons_append] at simple ⊢
  rw [readValue, skipSpace_cons (by simp [startsValue, isChar])]
  split
  next same =>
    cases same
    cases isChar
  next same =>
    cases same
    cases isChar
  next same =>
    cases same
    cases isChar
  next => exact simple

theorem readString_escaped (text rest : List Char) :
    readString (text.flatMap escapeChar ++ '"' :: rest) = some (some (String.ofList text), rest) := by
  obtain ⟨pieces, read, joined⟩ := readPieces_escaped text rest
  simp [readString, read, joined]

/-! ### Values -/

section Entry

variable {key : String} {steps : Nat} {text after : List Char} {document : Document}

theorem quote_append (content rest : List Char) :
    quote content ++ rest = '"' :: (content.flatMap escapeChar ++ '"' :: rest) := by
  simp [quote]

/-- The last entry of an object is read up to the brace behind its value. -/
theorem readEntries_last (read : readValue steps text = (document, some ('\x7d' :: after))) :
    readEntries (steps + 1) (quote key.toList ++ ':' :: text) =
      ([(some key, document)], some after) := by
  have split := readString_escaped key.toList (':' :: text)
  have colon : skipSpace (':' :: text) = ':' :: text := rfl
  have brace : skipSpace ('\x7d' :: after) = '\x7d' :: after := rfl
  rw [quote_append, readEntries, skipSpace_cons rfl]
  simp only [split, colon, read, brace, String.ofList_toList]

/-- Any other entry is read up to the comma behind its value, and the rest after it. -/
theorem readEntries_next (read : readValue steps text = (document, some (',' :: after)))
    {entries : List (Option String × Document)} {rest : Option (List Char)}
    (others : readEntries steps after = (entries, rest)) :
    readEntries (steps + 1) (quote key.toList ++ ':' :: text) =
      ((some key, document) :: entries, rest) := by
  have split := readString_escaped key.toList (':' :: text)
  have colon : skipSpace (':' :: text) = ':' :: text := rfl
  have comma : skipSpace (',' :: after) = ',' :: after := rfl
  rw [quote_append, readEntries, skipSpace_cons rfl]
  simp only [split, colon, read, comma, others, String.ofList_toList]

end Entry

/-- What is joined starts with its first part. -/
theorem exists_intercalate_cons (first : List Char) (others : List (List Char)) :
    ∃ more, [','].intercalate (first :: others) = first ++ more := by
  cases others with
  | nil => exact ⟨[], by simp⟩
  | cons next others =>
    rw [List.intercalate_cons_cons, List.append_assoc]
    exact ⟨_, rfl⟩

-- The induction is on the steps. A value takes one step of its own and one for the list of what is in
-- it, and each of these is at least a character, so that twice the length of the text is enough.
mutual

theorem readValue_written : ∀ (value : Json) (steps : Nat) (rest : List Char),
    (∀ n ∈ value.numbers, n.ReadsBack) → 2 * value.written.length ≤ steps → EndsNumber rest →
    readValue steps (value.written ++ rest) = (Document.ofJson value, some rest)
  | .null, steps + 1, rest, _, _, _ => rfl
  | .bool true, steps + 1, rest, _, _, _ => rfl
  | .bool false, steps + 1, rest, _, _, _ => rfl
  | .number value, steps + 1, rest, readsBack, _, ends =>
    readValue_number (readsBack value (by simp [numbers])) ends steps
  | .string value, steps + 1, rest, _, _, _ => by
    have read := readString_escaped value.toList rest
    have text : (Json.string value).written ++ rest =
        '"' :: (value.toList.flatMap escapeChar ++ '"' :: rest) := quote_append value.toList rest
    rw [text, readValue, skipSpace_cons rfl]
    simp [read, Document.ofJson]
  | .array [], steps + 1, rest, _, _, _ => rfl
  | .array (item :: items), steps + 1, rest, readsBack, enough, _ => by
    have room : 2 * ([','].intercalate (writtenItems (item :: items))).length + 1 ≤ steps := by
      simp only [written, List.length_append, List.length_cons, List.length_nil] at enough
      omega
    have read := readItems_written (item :: items) steps rest nofun readsBack room
    obtain ⟨c, tail, text, starts⟩ := exists_cons_of_written fun n member =>
      readsBack n (List.mem_append_left _ member)
    obtain ⟨more, joined⟩ := exists_intercalate_cons item.written (writtenItems items)
    have whole : (Json.array (item :: items)).written ++ rest =
        '[' :: ([','].intercalate (writtenItems (item :: items)) ++ ']' :: rest) := by
      simp [written]
    rw [whole, readValue, skipSpace_cons rfl]
    simp only
    rw [writtenItems, joined, text] at read ⊢
    simp only [List.cons_append] at read ⊢
    rw [skipSpace_cons starts]
    split
    next same =>
      cases same
      cases starts
    next =>
      rw [read]
      rfl
  | .object [], steps + 1, rest, _, _, _ => rfl
  | .object ((key, value) :: entries), steps + 1, rest, readsBack, enough, _ => by
    have room :
        2 * ([','].intercalate (writtenEntries ((key, value) :: entries))).length + 1 ≤ steps := by
      simp only [written, List.length_append, List.length_cons, List.length_nil] at enough
      omega
    have read := readEntries_written ((key, value) :: entries) steps rest nofun readsBack room
    obtain ⟨more, joined⟩ :=
      exists_intercalate_cons (quote key.toList ++ ':' :: value.written) (writtenEntries entries)
    have whole : (Json.object ((key, value) :: entries)).written ++ rest =
        '\x7b' :: ([','].intercalate (writtenEntries ((key, value) :: entries)) ++ '\x7d' :: rest) := by
      simp [written]
    rw [whole, readValue, skipSpace_cons rfl]
    simp only
    rw [writtenEntries, joined, quote] at read ⊢
    simp only [List.cons_append] at read ⊢
    rw [skipSpace_cons rfl]
    split
    next same => cases same
    next =>
      rw [read]
      rfl
  | value, 0, rest, readsBack, enough, _ => by
    obtain ⟨c, tail, text, _⟩ := exists_cons_of_written readsBack
    simp [text] at enough

theorem readItems_written : ∀ (items : List Json) (steps : Nat) (rest : List Char), items ≠ [] →
    (∀ n ∈ itemNumbers items, n.ReadsBack) →
    2 * ([','].intercalate (writtenItems items)).length + 1 ≤ steps →
    readItems steps ([','].intercalate (writtenItems items) ++ ']' :: rest) =
      (Document.ofItems items, some rest)
  | [], _, _, nonempty, _, _ => absurd rfl nonempty
  | [item], steps + 1, rest, _, readsBack, enough => by
    have first : ∀ n ∈ item.numbers, n.ReadsBack := fun n member =>
      readsBack n (List.mem_append_left _ member)
    have room : 2 * item.written.length ≤ steps := by
      simp only [writtenItems, List.intercalate_singleton] at enough
      omega
    have read := readValue_written item steps (']' :: rest) first room (endsNumber_cons rfl rest)
    rw [writtenItems, writtenItems, List.intercalate_singleton, readItems, read]
    rfl
  | item :: next :: items, steps + 1, rest, _, readsBack, enough => by
    have first : ∀ n ∈ item.numbers, n.ReadsBack := fun n member =>
      readsBack n (List.mem_append_left _ member)
    have others : ∀ n ∈ itemNumbers (next :: items), n.ReadsBack := fun n member =>
      readsBack n (List.mem_append_right _ member)
    rw [writtenItems, List.intercalate_cons_of_ne_nil (by simp [writtenItems])] at enough ⊢
    simp only [List.length_append, List.length_cons, List.length_nil] at enough
    have read := readValue_written item steps
      (',' :: ([','].intercalate (writtenItems (next :: items)) ++ ']' :: rest)) first (by omega)
      (endsNumber_cons rfl _)
    have behind := readItems_written (next :: items) steps rest nofun others (by omega)
    simp only [List.append_assoc, List.cons_append, List.nil_append]
    rw [readItems, read]
    simp only
    rw [show skipSpace (',' :: _) = ',' :: _ from rfl]
    simp only [behind]
    rfl

theorem readEntries_written : ∀ (entries : Object) (steps : Nat) (rest : List Char), entries ≠ [] →
    (∀ n ∈ entryNumbers entries, n.ReadsBack) →
    2 * ([','].intercalate (writtenEntries entries)).length + 1 ≤ steps →
    readEntries steps ([','].intercalate (writtenEntries entries) ++ '\x7d' :: rest) =
      (Document.ofEntries entries, some rest)
  | [], _, _, nonempty, _, _ => absurd rfl nonempty
  | [(key, value)], steps + 1, rest, _, readsBack, enough => by
    have first : ∀ n ∈ value.numbers, n.ReadsBack := fun n member =>
      readsBack n (List.mem_append_left _ member)
    simp only [writtenEntries, List.intercalate_singleton, List.length_append, List.length_cons] at enough
    have read := readValue_written value steps ('\x7d' :: rest) first (by omega) (endsNumber_cons rfl rest)
    rw [writtenEntries, writtenEntries, List.intercalate_singleton, List.append_assoc, List.cons_append]
    exact readEntries_last read
  | (key, value) :: next :: entries, steps + 1, rest, _, readsBack, enough => by
    have first : ∀ n ∈ value.numbers, n.ReadsBack := fun n member =>
      readsBack n (List.mem_append_left _ member)
    have others : ∀ n ∈ entryNumbers (next :: entries), n.ReadsBack := fun n member =>
      readsBack n (List.mem_append_right _ member)
    rw [writtenEntries, List.intercalate_cons_of_ne_nil (by simp [writtenEntries])] at enough ⊢
    simp only [List.length_append, List.length_cons, List.length_nil] at enough
    have read := readValue_written value steps
      (',' :: ([','].intercalate (writtenEntries (next :: entries)) ++ '\x7d' :: rest)) first (by omega)
      (endsNumber_cons rfl _)
    have behind := readEntries_written (next :: entries) steps rest nofun others (by omega)
    simp only [List.append_assoc, List.cons_append, List.nil_append]
    exact readEntries_next read behind

end

/-- **Reading the text of a value** gives its document and leaves nothing over. -/
theorem Document.read_text {value : Json} (readsBack : ∀ n ∈ value.numbers, n.ReadsBack) :
    Document.read value.text = (Document.ofJson value, true) := by
  have read := readValue_written value (2 * value.written.length + 2) [] readsBack (by omega)
    endsNumber_nil
  rw [List.append_nil] at read
  simp [Document.read, text, read, skipSpace]

/-- The floating point numbers that a value holds. -/
def floats (value : Json) : List Double := value.numbers.filterMap float?
where
  float? : Number → Option Double
    | .float x => some x
    | .integer _ => none

/-- Only floating point numbers can fail to be read back, if the numbers of a value are such that a
document can hold them. -/
theorem readsBack_of_isRepresentable {value : Json} (held : ∀ n ∈ value.numbers, n.IsRepresentable)
    (readsBack : ∀ x ∈ value.floats, (Number.float x).ReadsBack) :
    ∀ n ∈ value.numbers, n.ReadsBack := by
  intro n member
  cases n with
  | integer n => exact Number.readNumber?_text_integer (held _ member)
  | float x => exact readsBack x (List.mem_filterMap.mpr ⟨.float x, member, rfl⟩)

end Scim.Json
