import Scim.Filter.Matching
import Scim.Filter.Printer
import Scim.Proofs.Filter.Parsing
import Scim.Proofs.Filter.Tokens
import Scim.Proofs.Json.ReadBack
import Scim.Proofs.Reference

/-!
# Writing filters

The text of a filter is read back as the filter, except that parentheses are nodes of the tree:
where an operand has to be put in parentheses to stay together, the tree that is read has a group
there. `grouped` is that tree. It means the same, and it is the filter itself if the filter was read
from a text.
-/

namespace Scim.Filter

open Token

/-! ### Groups -/

/-- Whether an operand would be torn apart if it were written without parentheses: a disjunction
under `and`, and the right operand of the same connective. -/
def regroups (outer : Connective) (isRight : Bool) : Filter → Bool
  | .logical _ inner _ => (outer == .and && inner == .or) || (isRight && inner == outer)
  | _ => false

def groupIf (needed : Bool) (filter : Filter) : Filter := if needed then .group false filter else filter

/-- The filter with a plain group around each operand that would regroup. -/
def grouped : Filter → Filter
  | .logical left connective right =>
    .logical (groupIf (regroups connective false left) left.grouped) connective
      (groupIf (regroups connective true right) right.grouped)
  | .group negated inner => .group negated inner.grouped
  | .valuePath path inner => .valuePath path inner.grouped
  | .compare path operator literal => .compare path operator literal
  | .present path => .present path

theorem needsParentheses_eq (operand : Filter) (outer : Connective) (isRight : Bool) :
    operand.needsParentheses outer isRight = regroups outer isRight operand := by
  cases operand with
  | logical left inner right => cases inner <;> cases outer <;> cases isRight <;> rfl
  | _ => rfl

theorem holds_groupIf (scope : Scope) (needed : Bool) (filter : Filter) :
    (groupIf needed filter).holds scope = filter.holds scope := by
  cases needed <;> simp [groupIf, holds]

/-- Plain groups do not change what a filter says. -/
theorem holds_grouped (scope : Scope) (filter : Filter) :
    filter.grouped.holds scope = filter.holds scope := by
  -- The filter in brackets is asked of the elements, so the scope varies.
  induction filter generalizing scope with
  | logical left connective right ihLeft ihRight =>
    cases connective <;> simp [grouped, holds, holds_groupIf, ihLeft, ihRight]
  | group negated inner ih => simp [grouped, holds, ih]
  | valuePath path inner ih => cases scope <;> simp [grouped, holds, ih]
  | _ => rfl

theorem isMatch_grouped (filter : Filter) (view : View) (resource : Json) :
    filter.grouped.isMatch view resource = filter.isMatch view resource := by
  cases resource <;> simp [isMatch, holds_grouped]

/-! ### What can be written -/

/-- That no character ends a word can be computed. -/
theorem plain_of_all {text : List Char} (plain : text.all (!isDelimiter ·) = true) :
    ∀ c ∈ text, isDelimiter c = false := by
  simpa using plain

/-- A reference that is a single word and is read back as itself. -/
def IsWord (path : Reference) : Prop :=
  Reference.parse path.text = .ok path ∧ ∀ c ∈ path.text.toList, isDelimiter c = false

theorem IsWord.toList_ne_nil {path : Reference} (is : IsWord path) : path.text.toList ≠ [] := by
  intro empty
  have parsed := is.1
  rw [Reference.parse, empty] at parsed
  cases parsed

theorem IsWord.isPath {path : Reference} (is : IsWord path) (position : Nat) :
    IsPath ⟨.word, position, String.ofList path.text.toList⟩ path := by
  refine ⟨rfl, ?_⟩
  rw [String.ofList_toList]
  exact is.1

/-- A literal that is neither an array nor an object. -/
def IsScalar : Json → Prop
  | .null | .bool _ | .string _ => True
  | .number value => value.IsRepresentable
  | .array _ | .object _ => False

/-- All paths of a filter are words and all its literals are scalars. -/
def IsWritable : Filter → Prop
  | .compare path _ literal => IsWord path ∧ IsScalar literal
  | .present path => IsWord path
  | .logical left _ right => left.IsWritable ∧ right.IsWritable
  | .group _ inner => inner.IsWritable
  | .valuePath path inner => IsWord path ∧ inner.IsWritable

def literalFloats : Json → List Double
  | .number (.float value) => [value]
  | _ => []

/-- The floating point numbers among the literals of a filter. -/
def floats : Filter → List Double
  | .compare _ _ literal => literalFloats literal
  | .present _ => []
  | .logical left _ right => left.floats ++ right.floats
  | .group _ inner | .valuePath _ inner => inner.floats

/-- The text of a floating point number is read back as this number, and not as one of its
neighbours. -/
def ReadsBack (value : Double) : Prop := Json.readNumber? value.text.toList = some (.float value)

/-! ### Written tokens -/

/-- A text at byte `position` scans to some tokens, and scanning goes on with `rest` at byte
`after`. -/
def Scans (position : Nat) (text : List Char) (tokens : List Token) (after : Nat)
    (rest : List Char) : Prop :=
  tokensAt position (text ++ rest) = (tokensAt after rest).map (tokens ++ ·)

namespace Scans

variable {position after : Nat} {rest : List Char}

theorem append {front back : List Char} {middle : Nat} {tokens others : List Token}
    (first : Scans position front tokens middle (back ++ rest))
    (second : Scans middle back others after rest) :
    Scans position (front ++ back) (tokens ++ others) after rest := by
  unfold Scans at first second ⊢
  rw [List.append_assoc, first, second]
  cases tokensAt after rest <;> simp [Except.map]

theorem space : Scans position [' '] [] (position + ' '.utf8Size) rest := by
  unfold Scans
  rw [List.singleton_append, tokensAt_blank (by decide)]
  cases tokensAt (position + ' '.utf8Size) rest <;> rfl

theorem mark {kind : Kind} (c : Char) (position : Nat) (rest : List Char)
    (notBlank : Text.isBlank c = false) (is : Kind.ofMark? c = some kind) :
    Scans position [c] [⟨kind, position, String.singleton c⟩] (position + c.utf8Size) rest :=
  tokensAt_mark notBlank is position rest

theorem word (text : List Char) (position : Nat) (rest : List Char) (nonempty : text ≠ [])
    (chars : ∀ c ∈ text, isDelimiter c = false) (ends : EndsWord rest) :
    Scans position text [⟨.word, position, String.ofList text⟩]
      (position + Text.byteLength text) rest :=
  tokensAt_word nonempty chars ends position

theorem quoted (content : List Char) (position : Nat) (rest : List Char) :
    ∃ literal after, Scans position (Json.quote content) [literal] after rest ∧
      literal.kind = .string (String.ofList content) := by
  have split : splitQuoted ((content.flatMap Json.escapeChar ++ ['"']) ++ rest) =
      some (content.flatMap Json.escapeChar ++ ['"'], rest) := by
    rw [List.append_assoc]
    exact splitQuoted_escaped content rest
  exact ⟨_, _, tokensAt_quoted split (Json.decodeLiteral?_quote content) position, rfl⟩

end Scans

theorem endsWord_cons {c : Char} (delimiter : isDelimiter c = true) (rest : List Char) :
    EndsWord (c :: rest) := by
  intro first is
  cases is
  exact delimiter

/-- A text scans to tokens that derive a filter, wherever it stands and whatever follows it, as long
as that does not extend its last word. -/
def Writes (text : List Char) (level : Level) (filter : Filter) : Prop :=
  ∀ position rest, EndsWord rest →
    ∃ tokens after, Derives level tokens filter ∧ Scans position text tokens after rest

/-- A text scans to a token that stands for a literal. -/
def WritesLiteral (text : List Char) (value : Json) : Prop :=
  ∀ position rest, EndsWord rest →
    ∃ token after, IsLiteral token value ∧ Scans position text [token] after rest

namespace Writes

theorem ofTerm {text : List Char} {filter : Filter} (writes : Writes text .term filter) :
    Writes text .conjunction filter := by
  intro position rest ends
  obtain ⟨tokens, after, derived, scans⟩ := writes position rest ends
  exact ⟨tokens, after, .ofTerm derived, scans⟩

theorem ofConjunction {text : List Char} {filter : Filter} (writes : Writes text .conjunction filter) :
    Writes text .disjunction filter := by
  intro position rest ends
  obtain ⟨tokens, after, derived, scans⟩ := writes position rest ends
  exact ⟨tokens, after, .ofConjunction derived, scans⟩

/-- Two operands scan with the word between them. -/
theorem joined {left right : List Char} {levelLeft levelRight : Level} {first second : Filter}
    (writesLeft : Writes left levelLeft first) (writesRight : Writes right levelRight second)
    (keyword : List Char) (nonempty : keyword ≠ []) (chars : ∀ c ∈ keyword, isDelimiter c = false)
    (position : Nat) {rest : List Char} (ends : EndsWord rest) :
    ∃ front middle back after, Derives levelLeft front first ∧ Derives levelRight back second ∧
      Scans position (left ++ ([' '] ++ (keyword ++ ([' '] ++ right))))
        (front ++ ⟨.word, middle, String.ofList keyword⟩ :: back) after rest := by
  obtain ⟨front, middle, derivedLeft, scansLeft⟩ :=
    writesLeft position ([' '] ++ (keyword ++ ([' '] ++ right)) ++ rest) (endsWord_cons (by decide) _)
  have word := Scans.word keyword (middle + ' '.utf8Size) ([' '] ++ right ++ rest) nonempty chars
    (endsWord_cons (by decide) _)
  obtain ⟨back, after, derivedRight, scansRight⟩ := writesRight _ rest ends
  exact ⟨front, _, back, after, derivedLeft, derivedRight,
    scansLeft.append (.append .space (word.append (.append .space scansRight)))⟩

theorem or {left right : List Char} {first second : Filter}
    (writesLeft : Writes left .disjunction first) (writesRight : Writes right .conjunction second) :
    Writes (left ++ ([' '] ++ (['o', 'r'] ++ ([' '] ++ right)))) .disjunction
      (.logical first .or second) := by
  intro position rest ends
  obtain ⟨front, middle, back, after, derivedLeft, derivedRight, scans⟩ :=
    writesLeft.joined writesRight ['o', 'r'] (by decide) (plain_of_all rfl) position ends
  exact ⟨_, after, .or derivedLeft (by simp [isKeyword]) derivedRight, scans⟩

theorem and {left right : List Char} {first second : Filter}
    (writesLeft : Writes left .conjunction first) (writesRight : Writes right .term second) :
    Writes (left ++ ([' '] ++ (['a', 'n', 'd'] ++ ([' '] ++ right)))) .conjunction
      (.logical first .and second) := by
  intro position rest ends
  obtain ⟨front, middle, back, after, derivedLeft, derivedRight, scans⟩ :=
    writesLeft.joined writesRight ['a', 'n', 'd'] (by decide) (plain_of_all rfl) position ends
  exact ⟨_, after, .and derivedLeft (by simp [isKeyword]) derivedRight, scans⟩

/-- What is enclosed scans with the marks around it, whatever follows them. -/
theorem enclosed {text : List Char} {inner : Filter} (writes : Writes text .disjunction inner)
    {opens closes : Kind} (opening closing : Char) (isOpening : Kind.ofMark? opening = some opens)
    (isClosing : Kind.ofMark? closing = some closes) (notBlank : Text.isBlank opening = false)
    (delimiter : isDelimiter closing = true) (notBlankClosing : Text.isBlank closing = false)
    (position : Nat) (rest : List Char) :
    ∃ first tokens last after, first.kind = opens ∧ Derives .disjunction tokens inner ∧
      last.kind = closes ∧
      Scans position ([opening] ++ (text ++ [closing])) (first :: tokens ++ [last]) after rest := by
  have first := Scans.mark opening position (text ++ [closing] ++ rest) notBlank isOpening
  obtain ⟨tokens, middle, derived, scans⟩ :=
    writes (position + opening.utf8Size) ([closing] ++ rest) (endsWord_cons delimiter _)
  have last := Scans.mark closing middle rest notBlankClosing isClosing
  exact ⟨_, tokens, _, _, rfl, derived, rfl, first.append (scans.append last)⟩

theorem group {text : List Char} {inner : Filter} (writes : Writes text .disjunction inner) :
    Writes (['('] ++ (text ++ [')'])) .term (.group false inner) := by
  intro position rest ends
  obtain ⟨first, tokens, last, after, opens, derived, closes, scans⟩ :=
    writes.enclosed '(' ')' rfl rfl (by decide) (by decide) (by decide) position rest
  exact ⟨_, after, .group opens derived closes, scans⟩

theorem not {text : List Char} {inner : Filter} (writes : Writes text .disjunction inner) :
    Writes (['n', 'o', 't'] ++ ([' '] ++ (['('] ++ (text ++ [')'])))) .term
      (.group true inner) := by
  intro position rest ends
  have keyword := Scans.word ['n', 'o', 't'] position ([' '] ++ (['('] ++ (text ++ [')'])) ++ rest)
    (by decide) (plain_of_all rfl) (endsWord_cons (by decide) _)
  obtain ⟨first, tokens, last, after, opens, derived, closes, scans⟩ :=
    writes.enclosed '(' ')' rfl rfl (by decide) (by decide) (by decide) _ rest
  exact ⟨_, after, .not (by simp [isKeyword]) opens derived closes,
    keyword.append (.append .space scans)⟩

theorem present {path : Reference} (is : IsWord path) :
    Writes (path.text.toList ++ ([' '] ++ ['p', 'r'])) .term (.present path) := by
  intro position rest ends
  have name := Scans.word path.text.toList position ([' '] ++ ['p', 'r'] ++ rest)
    is.toList_ne_nil is.2 (endsWord_cons (by decide) _)
  have keyword (position : Nat) :=
    Scans.word ['p', 'r'] position rest (by decide) (plain_of_all rfl) ends
  exact ⟨_, _, .present (is.isPath _) (by simp [isKeyword]),
    name.append (.append .space (keyword _))⟩

theorem compare {path : Reference} (is : IsWord path) (operator : Operator) {literal : List Char}
    {value : Json} (writes : WritesLiteral literal value) :
    Writes (path.text.toList ++ ([' '] ++ (operator.keyword.toList ++ ([' '] ++ literal)))) .term
      (.compare path operator value) := by
  intro position rest ends
  have name := Scans.word path.text.toList position
    ([' '] ++ (operator.keyword.toList ++ ([' '] ++ literal)) ++ rest)
    is.toList_ne_nil is.2 (endsWord_cons (by decide) _)
  have keyword (position : Nat) := Scans.word operator.keyword.toList position ([' '] ++ literal ++ rest)
    (by cases operator <;> decide) (plain_of_all (by cases operator <;> rfl))
    (endsWord_cons (by decide) _)
  obtain ⟨token, after, stands, scans⟩ := writes _ rest ends
  exact ⟨_, _, .compare (is.isPath _) (by simp [isKeyword]) stands,
    name.append (.append .space ((keyword _).append (.append .space scans)))⟩

theorem valuePath {path : Reference} (is : IsWord path) {text : List Char} {inner : Filter}
    (writes : Writes text .disjunction inner) :
    Writes (path.text.toList ++ (['['] ++ (text ++ [']']))) .term (.valuePath path inner) := by
  intro position rest ends
  have name := Scans.word path.text.toList position (['['] ++ (text ++ [']']) ++ rest)
    is.toList_ne_nil is.2 (endsWord_cons (by decide) _)
  obtain ⟨first, tokens, last, after, opens, derived, closes, scans⟩ :=
    writes.enclosed '[' ']' rfl rfl (by decide) (by decide) (by decide) _ rest
  exact ⟨_, after, .valuePath (is.isPath _) opens derived closes, name.append scans⟩

end Writes

/-! ### Written literals -/

theorem isDelimiter_of_isDigit {c : Char} (digit : c.isDigit = true) : isDelimiter c = false := by
  have bounds : 48 ≤ c.toNat ∧ c.toNat ≤ 57 := by
    simpa [Char.isDigit, UInt32.le_iff_toNat_le] using digit
  have notBlank : Text.isBlank c = false := by
    simp only [Text.isBlank, Text.inRanges, Text.blankRanges, List.any_cons, List.any_nil,
      Bool.or_false, Bool.or_eq_false_iff, Bool.and_eq_false_iff, decide_eq_false_iff_not]
    omega
  have plain (mark : Char) (notDigit : mark.isDigit = false) : c ≠ mark := by
    rintro rfl
    rw [notDigit] at digit
    cases digit
  have noMark : Kind.ofMark? c = none := by
    unfold Kind.ofMark?
    split
    · exact absurd rfl (plain '(' rfl)
    · exact absurd rfl (plain ')' rfl)
    · exact absurd rfl (plain '[' rfl)
    · exact absurd rfl (plain ']' rfl)
    · rfl
  exact not_isDelimiter notBlank noMark (plain '"' rfl)

theorem isDelimiter_of_isNumberChar {c : Char} (is : Json.isNumberChar c = true) :
    isDelimiter c = false := by
  simp only [Json.isNumberChar, Bool.or_eq_true, List.contains_iff_mem, List.mem_cons,
    List.not_mem_nil, or_false] at is
  rcases is with digit | rfl | rfl | rfl | rfl | rfl
  · exact isDelimiter_of_isDigit digit
  all_goals decide

/-- A word that stands for a literal wherever it stands. -/
theorem WritesLiteral.ofWord {text : List Char} {value : Json} (nonempty : text ≠ [])
    (chars : ∀ c ∈ text, isDelimiter c = false)
    (stands : ∀ position, IsLiteral ⟨.word, position, String.ofList text⟩ value) :
    WritesLiteral text value :=
  fun position rest ends => ⟨_, _, stands position, .word text position rest nonempty chars ends⟩

theorem WritesLiteral.number {value : Number}
    (readsBack : Json.readNumber? value.text.toList = some value) :
    WritesLiteral value.text.toList (.number value) := by
  have chars := Json.isNumberChar_of_readNumber? readsBack
  refine .ofWord (Json.ne_nil_of_readNumber? readsBack)
    (fun c member => isDelimiter_of_isNumberChar (chars c member)) fun position => .number rfl ?_
  rwa [String.ofList_toList]

theorem WritesLiteral.string (value : String) :
    WritesLiteral (Json.quote value.toList) (.string value) := by
  intro position rest _
  obtain ⟨token, after, scans, kind⟩ := Scans.quoted value.toList position rest
  rw [String.ofList_toList] at kind
  exact ⟨token, after, .string kind, scans⟩

/-- The text of a scalar scans to a token that stands for it, if its floating point numbers are read
back. -/
theorem writesLiteral_text {value : Json} (scalar : IsScalar value)
    (readsBack : ∀ x ∈ literalFloats value, ReadsBack x) : WritesLiteral value.text.toList value := by
  rw [Json.text, String.toList_ofList]
  cases value with
  | null =>
    exact .ofWord (by decide) (plain_of_all rfl) fun _ => .null (by simp [isKeyword, Json.written])
  | bool value =>
    cases value with
    | true =>
      exact .ofWord (by decide) (plain_of_all rfl) fun _ => .true (by simp [isKeyword, Json.written])
    | false =>
      exact .ofWord (by decide) (plain_of_all rfl) fun _ => .false (by simp [isKeyword, Json.written])
  | string value => exact .string value
  | number value =>
    cases value with
    | integer value => exact .number (Number.readNumber?_text_integer scalar)
    | float value => exact .number (readsBack value (by simp [literalFloats]))
  | array items => exact scalar.elim
  | object entries => exact scalar.elim

/-! ### Written filters -/

/-- The level at which a filter stands without parentheses. -/
def level : Filter → Level
  | .logical _ .or _ => .disjunction
  | .logical _ .and _ => .conjunction
  | _ => .term

/-- The level at which the grammar wants an operand. -/
def operandLevel : Connective → Bool → Level
  | .or, false => .disjunction
  | .or, true | .and, false => .conjunction
  | .and, true => .term

theorem Writes.disjunction {text : List Char} {level : Level} {filter : Filter}
    (writes : Writes text level filter) : Writes text .disjunction filter := by
  cases level with
  | disjunction => exact writes
  | conjunction => exact writes.ofConjunction
  | term => exact writes.ofTerm.ofConjunction

theorem Writes.atLevel {text : List Char} {filter : Filter} (writes : Writes text .term filter)
    (level : Level) : Writes text level filter := by
  cases level with
  | disjunction => exact writes.ofTerm.ofConjunction
  | conjunction => exact writes.ofTerm
  | term => exact writes

/-- An operand is written at the level that is wanted, by itself or in parentheses. -/
theorem Writes.operand {operand : Filter}
    (writes : Writes operand.text.toList operand.level operand.grouped) (connective : Connective)
    (isRight : Bool) :
    Writes (parenthesizeIf (operand.needsParentheses connective isRight) operand.text).toList
      (operandLevel connective isRight)
      (groupIf (regroups connective isRight operand) operand.grouped) := by
  rw [needsParentheses_eq]
  cases needed : regroups connective isRight operand with
  | true =>
    have enclosed := writes.disjunction.group
    have text : (parenthesizeIf true operand.text).toList =
        ['('] ++ (operand.text.toList ++ [')']) := by
      simp [parenthesizeIf]
    rw [text]
    exact enclosed.atLevel _
  | false =>
    -- A connective that needs no parentheses binds at least as tightly as is wanted.
    cases operand with
    | logical left inner right =>
      cases inner <;> cases connective <;> cases isRight <;>
        first
        | exact writes
        | exact writes.ofConjunction
        | cases needed
    | _ => exact writes.atLevel _

theorem writes_text {filter : Filter} (writable : filter.IsWritable)
    (readsBack : ∀ x ∈ filter.floats, ReadsBack x) :
    Writes filter.text.toList filter.level filter.grouped := by
  -- By induction on the filter; what holds of an operand by itself holds of it in its place.
  induction filter with
  | compare path operator literal =>
    have writes := Writes.compare writable.1 operator (writesLiteral_text writable.2 readsBack)
    simpa [text, level, grouped] using writes
  | present path =>
    have writes := Writes.present writable
    simpa [text, level, grouped] using writes
  | logical left connective right ihLeft ihRight =>
    have writesLeft := ihLeft writable.1 fun x member => readsBack x (List.mem_append_left _ member)
    have writesRight := ihRight writable.2 fun x member =>
      readsBack x (List.mem_append_right _ member)
    cases connective with
    | or =>
      have writes := (writesLeft.operand .or false).or (writesRight.operand .or true)
      simpa [text, level, grouped, Connective.keyword] using writes
    | and =>
      have writes := (writesLeft.operand .and false).and (writesRight.operand .and true)
      simpa [text, level, grouped, Connective.keyword] using writes
  | group negated inner ih =>
    have writes := (ih writable readsBack).disjunction
    cases negated with
    | true => simpa [text, level, grouped] using writes.not
    | false => simpa [text, level, grouped] using writes.group
  | valuePath path inner ih =>
    have writes := Writes.valuePath writable.1 (ih writable.2 readsBack).disjunction
    simpa [text, level, grouped] using writes

/-- The text of a filter is read as the filter with its groups. -/
theorem parse_text {limits : Limits} {filter : Filter} (writable : filter.IsWritable)
    (readsBack : ∀ x ∈ filter.floats, ReadsBack x)
    (fits : filter.text.utf8ByteSize ≤ limits.maxFilterLength)
    (bounded : filter.grouped.depth ≤ limits.maxFilterDepth) :
    parse limits filter.text = .ok filter.grouped := by
  obtain ⟨tokens, after, derived, scans⟩ :=
    (writes_text writable readsBack).disjunction 0 [] (fun _ is => nomatch is)
  have scanned : tokensAt 0 filter.text.toList = .ok tokens := by
    simpa [Scans, tokensAt_nil, Except.map] using scans
  exact parse_eq_ok_iff.mpr ⟨fits, tokens, scanned, derived, bounded⟩

/-! ### Filters that were read -/

theorem isScalar_of_isLiteral {token : Token} {value : Json} (is : IsLiteral token value) :
    IsScalar value := by
  cases is with
  | number _ read => exact Number.isRepresentable_of_readNumber? read
  | _ => trivial

theorem isWord_of_isPath {token : Token} {path : Reference} (is : IsPath token path)
    (plain : token.kind = .word → ∀ c ∈ token.text.toList, isDelimiter c = false) : IsWord path := by
  obtain ⟨word, parsed⟩ := is
  have text := Reference.text_of_parse parsed
  exact ⟨text ▸ parsed, text ▸ plain word⟩

/-- Whatever is read can be written. -/
theorem Derives.isWritable {level : Level} {tokens : List Token} {filter : Filter}
    (derived : Derives level tokens filter)
    (plain : ∀ token ∈ tokens, token.kind = .word → ∀ c ∈ token.text.toList, isDelimiter c = false) :
    filter.IsWritable := by
  induction derived with
  | ofTerm _ ih | ofConjunction _ ih => exact ih plain
  | or _ _ _ ihLeft ihRight | and _ _ _ ihLeft ihRight =>
    exact ⟨ihLeft fun token member => plain token (by simp [member]),
      ihRight fun token member => plain token (by simp [member])⟩
  | not _ _ _ _ ih | group _ _ _ ih => exact ih fun token member => plain token (by simp [member])
  | present named => exact isWord_of_isPath named (plain _ (by simp))
  | compare named _ is => exact ⟨isWord_of_isPath named (plain _ (by simp)), isScalar_of_isLiteral is⟩
  | valuePath named _ _ _ ih =>
    exact ⟨isWord_of_isPath named (plain _ (by simp)),
      ih fun token member => plain token (by simp [member])⟩

/-- The grammar itself keeps operands apart. -/
theorem Derives.regroups_eq_false (connective : Connective) (isRight : Bool) {tokens : List Token}
    {operand : Filter} (derived : Derives (operandLevel connective isRight) tokens operand) :
    regroups connective isRight operand = false := by
  have term {tokens : List Token} (derived : Derives .term tokens operand) :
      regroups connective isRight operand = false := by
    cases derived <;> rfl
  cases connective with
  | or =>
    cases isRight with
    | false => cases operand <;> rfl
    | true =>
      cases derived with
      | ofTerm derived => exact term derived
      | and _ _ _ => rfl
  | and =>
    cases isRight with
    | false =>
      cases derived with
      | ofTerm derived => exact term derived
      | and _ _ _ => rfl
    | true => exact term derived

theorem Derives.grouped_eq {level : Level} {tokens : List Token} {filter : Filter}
    (derived : Derives level tokens filter) : filter.grouped = filter := by
  induction derived with
  | ofTerm _ ih | ofConjunction _ ih => exact ih
  | or left _ right ihLeft ihRight =>
    simp [grouped, groupIf, ihLeft, ihRight, regroups_eq_false .or false left,
      regroups_eq_false .or true right]
  | and left _ right ihLeft ihRight =>
    simp [grouped, groupIf, ihLeft, ihRight, regroups_eq_false .and false left,
      regroups_eq_false .and true right]
  | not _ _ _ _ ih | group _ _ _ ih | valuePath _ _ _ _ ih => simp [grouped, ih]
  | present | compare => rfl

/-- A filter that was read can be written, and its operands need no parentheses that it has not. -/
theorem isWritable_of_parse {limits : Limits} {text : String} {filter : Filter}
    (read : parse limits text = .ok filter) : filter.IsWritable ∧ filter.grouped = filter := by
  obtain ⟨_, tokens, tokenized, derived, _⟩ := parse_eq_ok_iff.mp read
  exact ⟨derived.isWritable (isDelimiter_of_tokenize tokenized), derived.grouped_eq⟩

/-- **Writing and reading back**: the text of a filter is read as the filter itself, up to a plain
group around each operand that would regroup, and these groups never change what the filter says. A
filter that was read from a text needs none of them. -/
theorem parse_text_eq_grouped :
    (∀ (limits : Limits) (filter : Filter), filter.IsWritable → (∀ x ∈ filter.floats, ReadsBack x) →
      filter.text.utf8ByteSize ≤ limits.maxFilterLength →
      filter.grouped.depth ≤ limits.maxFilterDepth →
      parse limits filter.text = .ok filter.grouped) ∧
    (∀ (filter : Filter) (view : View) (resource : Json),
      filter.grouped.isMatch view resource = filter.isMatch view resource) ∧
    ∀ (origin limits : Limits) (text : String) (filter : Filter), parse origin text = .ok filter →
      filter.grouped = filter ∧ ((∀ x ∈ filter.floats, ReadsBack x) →
        filter.text.utf8ByteSize ≤ limits.maxFilterLength → filter.depth ≤ limits.maxFilterDepth →
        parse limits filter.text = .ok filter) := by
  refine ⟨fun _ _ => parse_text, isMatch_grouped, fun origin limits text filter read => ?_⟩
  obtain ⟨writable, same⟩ := isWritable_of_parse read
  refine ⟨same, fun readsBack fits bounded => ?_⟩
  have readAgain := parse_text writable readsBack fits (same.symm ▸ bounded)
  rwa [same] at readAgain

/-- A disjunction under `and` and a chain that leans to the right get parentheses, and an attribute
may be called `not`. -/
theorem parse_text_regrouped :
    let quoted : Filter := .compare ⟨none, "not", none⟩ .co (.string "a \"b\"")
    let half : Filter := .compare ⟨none, "x", none⟩ .gt
      (.number (.float ⟨false, 4602678819172646912, by decide⟩))
    let filter : Filter := .logical (.logical quoted .or half) .and (.logical half .and quoted)
    let read : Filter := .logical (.group false (.logical quoted .or half)) .and
      (.group false (.logical half .and quoted))
    filter.text = "(not co \"a \\\"b\\\"\" or x gt 0.5) and (x gt 0.5 and not co \"a \\\"b\\\"\")" ∧
      parse { maxFilterDepth := 1 } filter.text = .ok read ∧
      parse { maxFilterDepth := 3 } read.text = .ok read := by
  intro quoted half filter read
  have isNot : IsWord ⟨none, "not", none⟩ := ⟨rfl, plain_of_all rfl⟩
  have isX : IsWord ⟨none, "x", none⟩ := ⟨rfl, plain_of_all rfl⟩
  have writable : filter.IsWritable :=
    ⟨⟨⟨isNot, trivial⟩, isX, trivial⟩, ⟨isX, trivial⟩, isNot, trivial⟩
  have readsBack : ∀ x ∈ filter.floats, ReadsBack x := by
    intro x member
    obtain rfl : x = ⟨false, 4602678819172646912, by decide⟩ := by
      simpa [filter, quoted, half, floats, literalFloats] using member
    unfold ReadsBack
    decide +kernel
  have written : parse { maxFilterDepth := 1 } filter.text = .ok read :=
    parse_text_eq_grouped.1 { maxFilterDepth := 1 } filter writable readsBack (by decide +kernel)
      (by decide)
  have same : read.floats = filter.floats := rfl
  exact ⟨by decide +kernel, written,
    (parse_text_eq_grouped.2.2 _ { maxFilterDepth := 3 } _ read written).2 (same ▸ readsBack)
      (by decide +kernel) (by decide)⟩

end Scim.Filter
