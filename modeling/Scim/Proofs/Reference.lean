import Scim.Proofs.Except
import Scim.Proofs.Text.Ascii
import Scim.Reference

/-!
# Reading and writing references

A reference is split at marks that do not occur in the parts behind them, so writing puts back
together what reading took apart. The other way round, a reference whose parts follow the grammar of
names is read back from its text: the last colon of the text is the one behind the URN, and what
follows it is a version only if it cannot be a name.
-/

namespace Scim

/-! ### Names -/

theorem isNameChar_iff {c : Char} : isNameChar c = true ↔ c.isAlphanum = true ∨ c = '-' ∨ c = '_' := by
  simp [isNameChar, or_assoc]

/-- A letter followed by letters, digits, `-` and `_`. -/
def IsWord (name : List Char) : Prop :=
  ∃ first rest, name = first :: rest ∧ first.isAlpha = true ∧
    ∀ c ∈ rest, c.isAlphanum = true ∨ c = '-' ∨ c = '_'

/-- The names of attributes: words, and `$ref`. -/
def IsAttributeName (name : List Char) : Prop := IsWord name ∨ name = ['$', 'r', 'e', 'f']

/-- The last segment of a URN that ends in a version: a digit followed by letters, digits, `-`, `_`
and `.`. -/
def IsVersionSegment (segment : List Char) : Prop :=
  ∃ first rest, segment = first :: rest ∧ first.isDigit = true ∧
    ∀ c ∈ rest, c.isAlphanum = true ∨ c = '-' ∨ c = '_' ∨ c = '.'

theorem isWord_cons {first : Char} {rest : List Char} :
    IsWord (first :: rest) ↔ first.isAlpha = true ∧ ∀ c ∈ rest, isNameChar c = true := by
  simp [IsWord, isNameChar_iff, and_assoc]

instance (name : List Char) : Decidable (IsWord name) :=
  match name with
  | [] => isFalse fun ⟨_, _, empty, _⟩ => nomatch empty
  | first :: rest =>
    decidable_of_iff ((first.isAlpha && rest.all isNameChar) = true) (by simp [isWord_cons])

theorem isName_iff {name : List Char} : isName name = true ↔ IsAttributeName name := by
  cases name with
  | nil => simp [isName, IsAttributeName, IsWord]
  | cons first rest =>
    simp [isName, IsAttributeName, isWord_cons]

theorem isVersion_iff {segment : List Char} : isVersion segment = true ↔ IsVersionSegment segment := by
  cases segment with
  | nil => simp [isVersion, IsVersionSegment]
  | cons first rest =>
    simp [isVersion, IsVersionSegment, isNameChar_iff, and_assoc, or_assoc]

/-- A version starts with a digit, and no name does. -/
theorem isVersion_of_isName {name : List Char} (is : isName name = true) (rest : List Char) :
    isVersion (name ++ rest) = false := by
  cases name with
  | nil => cases is
  | cons first others =>
    simp only [isName, Bool.or_eq_true, Bool.and_eq_true, beq_iff_eq, List.cons.injEq] at is
    rcases is with ⟨letter, _⟩ | ⟨rfl, _⟩
    · simp [isVersion, Text.isDigit_of_isAlpha letter]
    · rfl

theorem isNameChar_or_eq_dollar_of_isName {name : List Char} (is : isName name = true) {c : Char}
    (member : c ∈ name) : isNameChar c = true ∨ c = '$' := by
  cases name with
  | nil => cases is
  | cons first rest =>
    simp only [isName, Bool.or_eq_true, Bool.and_eq_true, List.all_eq_true, beq_iff_eq] at is
    rcases is with ⟨letter, others⟩ | dollar
    · rcases List.mem_cons.mp member with rfl | behind
      · exact .inl (by simp [isNameChar, Char.isAlphanum, letter])
      · exact .inl (others c behind)
    · rw [dollar] at member
      simp only [List.mem_cons, List.not_mem_nil, or_false] at member
      rcases member with rfl | rfl | rfl | rfl
      · exact .inr rfl
      all_goals exact .inl rfl

/-- The marks that structure a reference are not in a name. -/
theorem notMem_of_isName {name : List Char} (is : isName name = true) : ':' ∉ name ∧ '.' ∉ name := by
  constructor <;>
  · intro member
    rcases isNameChar_or_eq_dollar_of_isName is member with char | dollar
    · cases char
    · cases dollar

theorem notMem_of_isVersionSegment {segment : List Char} (is : IsVersionSegment segment) :
    ':' ∉ segment := by
  obtain ⟨first, rest, rfl, digit, others⟩ := is
  intro member
  rcases List.mem_cons.mp member with rfl | behind
  · cases digit
  · rcases others _ behind with letter | dash | line | dot
    · cases letter
    · cases dash
    · cases line
    · cases dot

theorem checkName_eq_ok_iff {name : List Char} : checkName name = .ok () ↔ isName name = true := by
  unfold checkName
  split
  next empty =>
    rw [List.isEmpty_iff.mp empty]
    simp [isName]
  next => split <;> simp_all

namespace Reference

/-! ### Parts of a reference -/

/-- The text of a URN in front of a name. -/
def urnText : Option String → String
  | some urn => urn ++ ":"
  | none => ""

/-- What stands in the text of a reference behind the URN. -/
def names (reference : Reference) : List Char :=
  reference.name.toList ++
    match reference.sub with
    | some sub => '.' :: sub.toList
    | none => []

theorem toList_text (reference : Reference) :
    reference.text.toList = (urnText reference.urn).toList ++ reference.names := by
  obtain ⟨urn, name, sub⟩ := reference
  cases urn <;> cases sub <;> simp [text, names, urnText]

/-- The names of a reference follow the grammar of names. -/
def HasNames (reference : Reference) : Prop :=
  IsAttributeName reference.name.toList ∧ ∀ sub ∈ reference.sub, IsAttributeName sub.toList

/-- What follows the URN is the version that it ends in. -/
def EndsInVersion (reference : Reference) : Prop :=
  reference.urn.isSome = true ∧ reference.sub = none ∧ IsVersionSegment reference.name.toList

/-- The references that a text can stand for. -/
structure IsWellFormed (reference : Reference) : Prop where
  hasUrn : reference.urn ≠ some ""
  parts : reference.HasNames ∨ reference.EndsInVersion

theorem names_of_endsInVersion {reference : Reference} (ends : reference.EndsInVersion) :
    reference.names = reference.name.toList := by
  obtain ⟨_, noSub, _⟩ := ends
  simp [names, noSub]

/-- The names of a reference are not empty, and no colon stands in them. -/
theorem names_of_isWellFormed {reference : Reference} (wellFormed : reference.IsWellFormed) :
    reference.names ≠ [] ∧ ':' ∉ reference.names := by
  rcases wellFormed.parts with ⟨is, isSub⟩ | ends
  · have name := isName_iff.mpr is
    obtain ⟨noColon, _⟩ := notMem_of_isName name
    have nonempty : reference.name.toList ≠ [] := by
      intro empty
      rw [empty] at name
      cases name
    cases found : reference.sub with
    | none => simp [names, found, nonempty, noColon]
    | some sub =>
      obtain ⟨noColonSub, _⟩ := notMem_of_isName (isName_iff.mpr (isSub sub found))
      simp [names, found, noColon, noColonSub]
  · rw [names_of_endsInVersion ends]
    obtain ⟨first, rest, segment, _⟩ := ends.2.2
    exact ⟨by simp [segment], notMem_of_isVersionSegment ends.2.2⟩

/-! ### Reading -/

/-- A path is one name, or two names around a dot. -/
theorem parseNames_eq_ok {urn : Option String} {path : List Char} {reference : Reference}
    (parsed : parseNames urn path = .ok reference) :
    reference.urn = urn ∧ path = reference.names ∧ reference.HasNames := by
  unfold parseNames at parsed
  split at parsed
  · obtain ⟨is, done⟩ := check_bind_eq_ok_iff.mp parsed
    cases done
    have is := isName_iff.mp (checkName_eq_ok_iff.mp is)
    simp [names, HasNames, is]
  next name sub split =>
    obtain ⟨is, parsed⟩ := check_bind_eq_ok_iff.mp parsed
    split at parsed
    · cases parsed
    · obtain ⟨isSub, done⟩ := check_bind_eq_ok_iff.mp parsed
      cases done
      have is := isName_iff.mp (checkName_eq_ok_iff.mp is)
      have isSub := isName_iff.mp (checkName_eq_ok_iff.mp isSub)
      simp [names, HasNames, is, isSub, (Text.splitFirst_eq_some_iff.mp split).1]

/-- The first dot in the names of a reference is the one between them. -/
theorem parseNames_names {reference : Reference} (has : reference.HasNames) :
    parseNames reference.urn reference.names = .ok reference := by
  obtain ⟨urn, name, sub⟩ := reference
  obtain ⟨is, isSub⟩ := has
  have is := isName_iff.mpr is
  obtain ⟨_, noDot⟩ := notMem_of_isName is
  cases sub with
  | none =>
    have split : Text.splitFirst '.' name.toList = none := Text.splitFirst_eq_none_iff.mpr noDot
    simp [parseNames, names, split, checkName_eq_ok_iff.mpr is, bind, Except.bind, pure, Except.pure]
  | some sub =>
    have isSub := isName_iff.mpr (isSub sub rfl)
    obtain ⟨_, noDotSub⟩ := notMem_of_isName isSub
    -- No dot stands in the first name, so the first one is between the names.
    have split : Text.splitFirst '.' (name.toList ++ '.' :: sub.toList) =
        some (name.toList, sub.toList) := Text.splitFirst_eq_some_iff.mpr ⟨rfl, noDot⟩
    simp [parseNames, names, split, checkName_eq_ok_iff.mpr is, checkName_eq_ok_iff.mpr isSub, noDotSub,
      bind, Except.bind, pure, Except.pure]

/-- Without a colon a text has no URN. Otherwise the last colon ends the URN, and what follows is a
version if it can be one. -/
theorem parse_eq_ok_iff {text : String} {reference : Reference} :
    parse text = .ok reference ↔
      ':' ∉ text.toList ∧ parseNames none text.toList = .ok reference ∨
        ∃ urn path, text.toList = urn ++ ':' :: path ∧ ':' ∉ path ∧ path ≠ [] ∧ urn ≠ [] ∧
          (if isVersion path then .ok ⟨some (String.ofList urn), String.ofList path, none⟩
            else parseNames (some (String.ofList urn)) path) = .ok reference := by
  unfold parse
  cases split : Text.splitLast ':' text.toList with
  | none =>
    have absent := Text.splitLast_eq_none_iff.mp split
    have noUrn {urn path : List Char} : text.toList ≠ urn ++ ':' :: path := fun whole =>
      absent (by simp [whole])
    simp only [absent, noUrn, not_false_eq_true, true_and, false_and, exists_false, or_false]
    by_cases empty : text.toList = []
    · -- An empty text is no name either.
      rw [empty]
      exact ⟨nofun, nofun⟩
    · rw [if_neg (by simpa using empty)]
  | some parts =>
    obtain ⟨urn, path⟩ := parts
    obtain ⟨whole, last⟩ := Text.splitLast_eq_some_iff.mp split
    have present : ¬ ':' ∉ text.toList := by simp [whole]
    have nonempty : ¬ text.toList.isEmpty = true := by simp [whole]
    rw [if_neg nonempty]
    simp only [present, false_and, false_or, List.isEmpty_iff]
    constructor
    · intro parsed
      split at parsed
      · cases parsed
      next hasPath =>
        split at parsed
        · cases parsed
        next hasUrn => exact ⟨urn, path, whole, last, hasPath, hasUrn, parsed⟩
    · rintro ⟨other, behind, wholeOther, lastOther, hasPath, hasUrn, parsed⟩
      have same := Text.splitLast_eq_some_iff.mpr ⟨wholeOther, lastOther⟩
      rw [split] at same
      cases same
      rw [if_neg hasPath, if_neg hasUrn]
      exact parsed

/-- What is read is the text of a well-formed reference. -/
theorem isWellFormed_of_parse {text : String} {reference : Reference}
    (parsed : parse text = .ok reference) : text = reference.text ∧ reference.IsWellFormed := by
  rw [← String.toList_inj, toList_text]
  rcases parse_eq_ok_iff.mp parsed with ⟨_, parsed⟩ | ⟨urn, path, whole, _, _, hasUrn, parsed⟩
  · obtain ⟨noUrn, written, has⟩ := parseNames_eq_ok parsed
    exact ⟨by simp [noUrn, written, urnText], by simp [noUrn], .inl has⟩
  · have notEmpty : String.ofList urn ≠ "" := fun empty =>
      hasUrn (by simpa using congrArg String.toList empty)
    split at parsed
    next version =>
      cases parsed
      have segment : IsVersionSegment (String.ofList path).toList :=
        String.toList_ofList ▸ isVersion_iff.mp version
      exact ⟨by simp [whole, urnText, names], by simpa using notEmpty, .inr ⟨rfl, rfl, segment⟩⟩
    next =>
      obtain ⟨isUrn, rfl, has⟩ := parseNames_eq_ok parsed
      exact ⟨by simp [whole, isUrn, urnText], by simpa [isUrn] using notEmpty, .inl has⟩

/-- Reading undoes writing. -/
theorem parse_text {reference : Reference} (wellFormed : reference.IsWellFormed) :
    parse reference.text = .ok reference := by
  obtain ⟨nonempty, noColon⟩ := names_of_isWellFormed wellFormed
  rw [parse_eq_ok_iff, toList_text]
  cases isUrn : reference.urn with
  | none =>
    -- A version stands behind a URN only.
    have has : reference.HasNames := by
      rcases wellFormed.parts with has | ⟨hasUrn, _⟩
      · exact has
      · simp [isUrn] at hasUrn
    have read := parseNames_names has
    rw [isUrn] at read
    exact .inl ⟨by simpa [urnText] using noColon, by simpa [urnText] using read⟩
  | some urn =>
    have hasUrn : urn.toList ≠ [] := fun empty =>
      wellFormed.hasUrn (by rw [isUrn, String.toList_eq_nil_iff.mp empty])
    -- No colon stands in the names, so the last one is behind the URN.
    refine .inr ⟨urn.toList, reference.names, by simp [urnText], noColon, nonempty, hasUrn, ?_⟩
    rw [String.ofList_toList]
    rcases wellFormed.parts with has | ends
    · have noVersion : isVersion reference.names = false :=
        isVersion_of_isName (isName_iff.mpr has.1) _
      rw [noVersion, ← isUrn]
      exact parseNames_names has
    · rw [names_of_endsInVersion ends, isVersion_iff.mpr ends.2.2, if_pos rfl, String.ofList_toList,
        ← isUrn, ← ends.2.1]

/-- **Reading and writing references are inverse**: a text is read as a reference if and only if it is
the text of the reference and the reference is well-formed, which means that its URN, if it has one,
is not empty, and that it has names by the grammar of names or, behind a URN, a version. -/
theorem parse_iff_text (text : String) (reference : Reference) :
    parse text = .ok reference ↔ text = reference.text ∧ reference.IsWellFormed := by
  constructor
  · exact isWellFormed_of_parse
  · rintro ⟨rfl, wellFormed⟩
    exact parse_text wellFormed

theorem text_of_parse {text : String} {reference : Reference} (parsed : parse text = .ok reference) :
    reference.text = text :=
  (isWellFormed_of_parse parsed).1.symm

/-- The URN of the schema that a reference could name is the text of the reference. -/
theorem eq_of_asSchemaUrn? {text urn : String} {reference : Reference}
    (parsed : parse text = .ok reference) (named : reference.asSchemaUrn? = some urn) :
    urn = text := by
  have written := text_of_parse parsed
  unfold asSchemaUrn? at named
  split at named
  next isUrn noSub =>
    cases named
    simpa [Reference.text, isUrn, noSub] using written
  · cases named

/-- A reference without URN and sub-attribute is a name. -/
theorem parse_bare_eq_ok_iff {name : List Char} {reference : Reference} :
    parse (String.ofList name) = .ok reference ∧ reference.urn = none ∧ reference.sub = none ↔
      isName name = true ∧ reference = ⟨none, String.ofList name, none⟩ := by
  constructor
  · rintro ⟨parsed, noUrn, noSub⟩
    obtain ⟨written, wellFormed⟩ := isWellFormed_of_parse parsed
    obtain ⟨urn, found, sub⟩ := reference
    cases noUrn
    cases noSub
    have same : String.ofList name = found := by simpa [text] using written
    refine ⟨?_, by rw [same]⟩
    rcases wellFormed.parts with ⟨is, _⟩ | ⟨hasUrn, _⟩
    · rw [isName_iff, ← String.toList_ofList (l := name), same]
      exact is
    · cases hasUrn
  · rintro ⟨is, rfl⟩
    have has : IsAttributeName (String.ofList name).toList := String.toList_ofList ▸ isName_iff.mp is
    have wellFormed : IsWellFormed ⟨none, String.ofList name, none⟩ := ⟨nofun, .inl ⟨has, nofun⟩⟩
    exact ⟨by simpa [text] using parse_text wellFormed, rfl, rfl⟩

end Reference

end Scim
