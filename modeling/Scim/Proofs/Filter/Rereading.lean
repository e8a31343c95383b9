import Mathlib.Data.List.Forall2
import Scim.Number.Shortest
import Scim.Proofs.Filter.Writing

/-!
# Reading a filter again

A filter that was read from a text has a text of its own, with spaces and numerals that the first
text need not have. Under the limits that admitted the first text the own text can fail in two ways
only: it is too long, or one of its floating point numbers is read as a neighbour. How deep it nests
is never a reason, since both texts have the same parentheses.

That the numbers are a reason at all is seen from the words of a text. `written` lists them without
looking at the reader, and a derivation says of each what it stands for.
-/

namespace Scim

/-! ### The characters of floating point numbers -/

namespace Double

open Json

theorem isNumberChar_of_isDigit {c : Char} (digit : c.isDigit = true) : isNumberChar c = true := by
  simp [isNumberChar, digit]

theorem isNumberChar_toDigits (n : Nat) : ∀ c ∈ Nat.toDigits 10 n, isNumberChar c = true :=
  fun _ member => isNumberChar_of_isDigit
    (Nat.isDigit_of_mem_toDigits (by decide) (Nat.le_refl 10) member)

theorem isNumberChar_significantDigits (n : Nat) :
    ∀ c ∈ significantDigits n, isNumberChar c = true := by
  intro c member
  have kept := List.mem_reverse.mp member
  exact isNumberChar_toDigits n c (List.mem_reverse.mp ((List.dropWhile_sublist _).subset kept))

theorem isNumberChar_replicate (n : Nat) : ∀ c ∈ List.replicate n '0', isNumberChar c = true := by
  intro c member
  rw [List.eq_of_mem_replicate member]
  decide

theorem isNumberChar_layout {digits : List Char} (chars : ∀ c ∈ digits, isNumberChar c = true)
    (exponent : Int) : ∀ c ∈ layout digits exponent, isNumberChar c = true := by
  have point : isNumberChar '.' = true := by decide
  have zero : isNumberChar '0' = true := by decide
  unfold layout
  simp only []
  split
  · -- With an exponent behind the digits.
    have sign : isNumberChar (if exponent < 0 then '-' else '+') = true := by
      split <;> decide
    have mark : isNumberChar 'e' = true := by decide
    simp only [List.forall_mem_append, List.forall_mem_cons]
    refine ⟨?_, mark, sign, isNumberChar_toDigits _⟩
    split
    · exact chars
    · simpa [point] using chars
    · simp
  · split
    · simp only [List.forall_mem_append, List.forall_mem_cons, List.cons_append]
      exact ⟨zero, point, isNumberChar_replicate _, chars⟩
    · simp only [List.forall_mem_append, List.forall_mem_cons]
      refine ⟨⟨fun c member => chars c (List.mem_of_mem_take member), isNumberChar_replicate _⟩,
        point, ?_⟩
      split
      · simp [zero]
      · exact fun c member => chars c (List.mem_of_mem_drop member)

/-- The text of a floating point number consists of the characters of numbers, whether or not it is
read back. -/
theorem isNumberChar_text (x : Double) : ∀ c ∈ x.text.toList, isNumberChar c = true := by
  have sign : ∀ c ∈ (if x.negative then ['-'] else []), isNumberChar c = true := by
    split <;> simp [isNumberChar]
  have written (digits : List Char) (chars : ∀ c ∈ digits, isNumberChar c = true) :
      ∀ c ∈ (String.ofList ((if x.negative then ['-'] else []) ++ digits)).toList,
        isNumberChar c = true := by
    rw [String.toList_ofList]
    exact List.forall_mem_append.mpr ⟨sign, chars⟩
  unfold text
  generalize shortest? x = found
  by_cases zero : x.magnitude = 0
  · rw [if_pos zero]
    exact written _ (by simp [isNumberChar])
  · rw [if_neg zero]
    cases found with
    | some decimal => exact written _ (isNumberChar_layout (isNumberChar_significantDigits _) _)
    | none => simp

end Double

namespace Filter

open Token

/-! ### Words -/

/-- A word of the text of a filter, with the number that it has to stand for if it is one. -/
structure Word where
  text : String
  number? : Option Number := none

/-- Whether a text can stand in the place of a word: where a number is expected, it spells it. -/
def Word.IsSpelt (word : Word) (text : String) : Prop :=
  ∀ value, word.number? = some value → Json.readNumber? text.toList = some value

def literalWords : Json → List Word
  | .string _ => []
  | .number value => [⟨value.text, some value⟩]
  | literal => [⟨literal.text, none⟩]

/-- The words of the text of a filter, in their order. Parentheses do not count, so it does not matter
where the text has some that the filter has not. -/
def written : Filter → List Word
  | .compare path operator literal =>
    [{ text := path.text }, { text := operator.keyword }] ++ literalWords literal
  | .present path => [{ text := path.text }, { text := "pr" }]
  | .logical left connective right =>
    left.written ++ { text := connective.keyword } :: right.written
  | .group true inner => { text := "not" } :: inner.written
  | .group false inner => inner.written
  | .valuePath path inner => { text := path.text } :: inner.written

theorem mem_written_of_mem_floats {filter : Filter} {x : Double} (member : x ∈ filter.floats) :
    ⟨x.text, some (.float x)⟩ ∈ filter.written := by
  induction filter with
  | compare path operator literal =>
    cases literal with
    | number value =>
      cases value with
      | integer value => simp [floats, literalFloats] at member
      | float value =>
        obtain rfl : x = value := by simpa [floats, literalFloats] using member
        simp [written, literalWords, Number.text]
    | _ => simp [floats, literalFloats] at member
  | present path => simp [floats] at member
  | logical left connective right ihLeft ihRight =>
    rcases List.mem_append.mp member with inLeft | inRight
    · exact List.mem_append_left _ (ihLeft inLeft)
    · exact List.mem_append_right _ (List.mem_cons_of_mem _ (ihRight inRight))
  | group negated inner ih =>
    cases negated with
    | true => exact List.mem_cons_of_mem _ (ih member)
    | false => exact ih member
  | valuePath path inner ih => exact List.mem_cons_of_mem _ (ih member)

/-- The texts of the tokens that are words. -/
def words (tokens : List Token) : List String :=
  (tokens.filter fun token => decide (token.kind = .word)).map (·.text)

theorem words_append (front back : List Token) : words (front ++ back) = words front ++ words back := by
  simp [words]

theorem words_cons_word {token : Token} (is : token.kind = .word) (rest : List Token) :
    words (token :: rest) = token.text :: words rest := by
  simp [words, is]

theorem words_cons_other {token : Token} (is : token.kind ≠ .word) (rest : List Token) :
    words (token :: rest) = words rest := by
  simp [words, is]

@[simp] theorem words_nil : words [] = [] := rfl

/-! ### The words of a derivation -/

theorem isSpelt_of_none (text spelt : String) : Word.IsSpelt { text } spelt := nofun

/-- A text for each word of a filter, in their order. -/
def Spelling (texts : List String) (filter : Filter) : Prop :=
  List.Forall₂ (fun text (word : Word) => word.IsSpelt text) texts filter.written

theorem spelling_literal {token : Token} {value : Json} (is : IsLiteral token value) :
    List.Forall₂ (fun text (word : Word) => word.IsSpelt text) (words [token]) (literalWords value) := by
  cases is with
  | string kind =>
    rw [words_cons_other (by rw [kind]; exact Kind.noConfusion)]
    exact .nil
  | true keyword | false keyword | null keyword =>
    rw [words_cons_word (kind_of_isKeyword keyword)]
    exact .cons (isSpelt_of_none _ _) .nil
  | number word read =>
    rw [words_cons_word word]
    refine .cons ?_ .nil
    rintro _ ⟨⟩
    exact read

/-- A row of tokens from which a filter is derived has the words of the filter, each of them standing
for the number that it has to. -/
theorem Derives.spelling {level : Level} {tokens : List Token} {filter : Filter}
    (derived : Derives level tokens filter) : Spelling (words tokens) filter := by
  have enclosed {tokens : List Token} {inner : Filter} {opening closing : Token}
      (opens : opening.kind ≠ .word) (closes : closing.kind ≠ .word)
      (spelt : Spelling (words tokens) inner) :
      Spelling (words (opening :: tokens ++ [closing])) inner := by
    rw [List.cons_append, words_cons_other opens, words_append, words_cons_other closes, words_nil,
      List.append_nil]
    exact spelt
  induction derived with
  | ofTerm _ ih | ofConjunction _ ih => exact ih
  | or _ keyword _ ihLeft ihRight | and _ keyword _ ihLeft ihRight =>
    rw [words_append, words_cons_word (kind_of_isKeyword keyword)]
    exact List.rel_append ihLeft (.cons (isSpelt_of_none _ _) ihRight)
  | not keyword opens _ closes ih =>
    rw [List.cons_append, words_cons_word (kind_of_isKeyword keyword)]
    exact .cons (isSpelt_of_none _ _) (enclosed (by simp [opens]) (by simp [closes]) ih)
  | group opens _ closes ih => exact enclosed (by simp [opens]) (by simp [closes]) ih
  | present named keyword =>
    rw [words_cons_word named.1, words_cons_word (kind_of_isKeyword keyword)]
    exact .cons (isSpelt_of_none _ _) (.cons (isSpelt_of_none _ _) .nil)
  | compare named keyword is =>
    rw [words_cons_word named.1, words_cons_word (kind_of_isKeyword keyword)]
    exact .cons (isSpelt_of_none _ _) (.cons (isSpelt_of_none _ _) (spelling_literal is))
  | valuePath named opens _ closes ih =>
    rw [List.cons_append, words_cons_word named.1]
    exact .cons (isSpelt_of_none _ _) (enclosed (by simp [opens]) (by simp [closes]) ih)

/-! ### The words of a text -/

/-- A text scans to tokens with some words, wherever it stands and whatever follows it, as long as that
does not extend its last word. A word of no characters leaves no token. -/
def HasWords (text : List Char) (words : List Word) : Prop :=
  ∀ position rest, EndsWord rest →
    ∃ tokens after, Filter.words tokens = (words.map Word.text).filter (· ≠ "") ∧
      Scans position text tokens after rest

theorem Scans.nil (position : Nat) (rest : List Char) : Scans position [] [] position rest := by
  rw [Scans, List.nil_append]
  cases tokensAt position rest <;> rfl

namespace HasWords

theorem nil : HasWords [] [] := fun position rest _ => ⟨[], position, rfl, .nil position rest⟩

theorem word {text : String} (chars : ∀ c ∈ text.toList, isDelimiter c = false)
    (number? : Option Number) : HasWords text.toList [⟨text, number?⟩] := by
  intro position rest ends
  by_cases empty : text = ""
  · refine ⟨[], position, by simp [empty], ?_⟩
    rw [empty]
    exact Scans.nil position rest
  · have nonempty : text.toList ≠ [] := by simpa using empty
    refine ⟨_, _, ?_, .word text.toList position rest nonempty chars ends⟩
    rw [words_cons_word rfl, String.ofList_toList]
    simp [empty]

theorem quoted (content : List Char) : HasWords (Json.quote content) [] := by
  intro position rest _
  obtain ⟨token, after, scans, kind⟩ := Scans.quoted content position rest
  refine ⟨[token], after, ?_, scans⟩
  rw [words_cons_other (by rw [kind]; exact Kind.noConfusion)]
  rfl

/-- What follows a delimiter. -/
theorem spaced {left right : List Char} {first second : List Word} (hasLeft : HasWords left first)
    (hasRight : HasWords right second) : HasWords (left ++ ([' '] ++ right)) (first ++ second) := by
  intro position rest ends
  obtain ⟨front, middle, inFront, scansLeft⟩ :=
    hasLeft position ([' '] ++ right ++ rest) (endsWord_cons (by decide) _)
  obtain ⟨back, after, inBack, scansRight⟩ := hasRight (middle + ' '.utf8Size) rest ends
  refine ⟨front ++ back, after, ?_, scansLeft.append (.append .space scansRight)⟩
  rw [words_append, inFront, inBack, List.map_append, List.filter_append]

/-- What stands between two marks, behind something that the first of them ends. -/
theorem enclosed {name text : List Char} {first second : List Word} (hasName : HasWords name first)
    (hasText : HasWords text second) {opens closes : Kind} (opening closing : Char)
    (isOpening : Kind.ofMark? opening = some opens) (isClosing : Kind.ofMark? closing = some closes)
    (delimiters : isDelimiter opening = true ∧ isDelimiter closing = true)
    (notBlank : Text.isBlank opening = false ∧ Text.isBlank closing = false)
    (marks : opens ≠ .word ∧ closes ≠ .word) :
    HasWords (name ++ ([opening] ++ (text ++ [closing]))) (first ++ second) := by
  intro position rest ends
  obtain ⟨front, start, inFront, scansName⟩ :=
    hasName position ([opening] ++ (text ++ [closing]) ++ rest) (endsWord_cons delimiters.1 _)
  have opened := Scans.mark opening start (text ++ [closing] ++ rest) notBlank.1 isOpening
  obtain ⟨tokens, middle, inside, scans⟩ :=
    hasText (start + opening.utf8Size) ([closing] ++ rest) (endsWord_cons delimiters.2 _)
  have closed := Scans.mark closing middle rest notBlank.2 isClosing
  refine ⟨_, _, ?_, scansName.append (opened.append (scans.append closed))⟩
  rw [words_append, words_append, words_append, words_cons_other marks.1, words_cons_other marks.2,
    inFront, inside]
  simp

/-- Parentheses around a text add no words. -/
theorem parenthesized {text : List Char} {words : List Word} (has : HasWords text words) :
    HasWords (['('] ++ (text ++ [')'])) words :=
  nil.enclosed has '(' ')' rfl rfl (by decide) (by decide) (by decide)

theorem operand {operand : Filter} {words : List Word} (has : HasWords operand.text.toList words)
    (needed : Bool) : HasWords (parenthesizeIf needed operand.text).toList words := by
  cases needed with
  | true => simpa [parenthesizeIf] using has.parenthesized
  | false => exact has

end HasWords

theorem hasWords_literal {literal : Json} (scalar : IsScalar literal) :
    HasWords literal.text.toList (literalWords literal) := by
  cases literal with
  | null => exact .word (plain_of_all rfl) none
  | bool value => cases value <;> exact .word (plain_of_all rfl) none
  | string value =>
    rw [Json.text, String.toList_ofList]
    exact .quoted value.toList
  | number value =>
    rw [Json.text, String.toList_ofList]
    have chars : ∀ c ∈ value.text.toList, Json.isNumberChar c = true := by
      cases value with
      | integer value => exact Json.isNumberChar_of_readNumber? (Number.readNumber?_text_integer scalar)
      | float value => exact value.isNumberChar_text
    exact .word (fun c member => isDelimiter_of_isNumberChar (chars c member)) _
  | array items => exact scalar.elim
  | object entries => exact scalar.elim

/-- The words of the text of a filter, whatever its numbers are read as. -/
theorem hasWords_text {filter : Filter} (writable : filter.IsWritable) :
    HasWords filter.text.toList filter.written := by
  induction filter with
  | compare path operator literal =>
    have name := HasWords.word writable.1.2 none
    have keyword : HasWords operator.keyword.toList [⟨operator.keyword, none⟩] :=
      .word (by cases operator <;> exact plain_of_all rfl) none
    have has := name.spaced (keyword.spaced (hasWords_literal writable.2))
    simpa [text, written] using has
  | present path =>
    have name := HasWords.word writable.2 none
    have keyword : HasWords "pr".toList [⟨"pr", none⟩] := .word (plain_of_all rfl) none
    simpa [text, written] using name.spaced keyword
  | logical left connective right ihLeft ihRight =>
    have keyword : HasWords connective.keyword.toList [⟨connective.keyword, none⟩] :=
      .word (by cases connective <;> exact plain_of_all rfl) none
    have has := ((ihLeft writable.1).operand (left.needsParentheses connective false)).spaced
      (keyword.spaced ((ihRight writable.2).operand (right.needsParentheses connective true)))
    simpa [text, written] using has
  | group negated inner ih =>
    have has := (ih writable).parenthesized
    cases negated with
    | true =>
      have keyword : HasWords "not".toList [⟨"not", none⟩] := .word (plain_of_all rfl) none
      simpa [text, written] using keyword.spaced has
    | false => simpa [text, written] using has
  | valuePath path inner ih =>
    have name := HasWords.word writable.1.2 none
    have has := name.enclosed (ih writable.2) '[' ']' rfl rfl (by decide) (by decide) (by decide)
    simpa [text, written] using has

/-! ### Texts without spaces -/

theorem parse_unspaced {limits : Limits} (content : List Char)
    (fits : (String.ofList (['a', ' ', 'e', 'q'] ++ Json.quote content)).utf8ByteSize ≤
      limits.maxFilterLength) :
    parse limits (String.ofList (['a', ' ', 'e', 'q'] ++ Json.quote content)) =
      .ok (.compare ⟨none, "a", none⟩ .eq (.string (String.ofList content))) := by
  obtain ⟨literal, after, quoted, kind⟩ := Scans.quoted content 4 []
  have operator := Scans.word ['e', 'q'] 2 (Json.quote content ++ []) (by decide) (plain_of_all rfl)
    (endsWord_cons (by decide) _)
  have name := Scans.word ['a'] 0 ([' '] ++ (['e', 'q'] ++ Json.quote content) ++ []) (by decide)
    (plain_of_all rfl) (endsWord_cons (by decide) _)
  have scans := name.append (.append .space (operator.append quoted))
  have tokenized : tokenize (String.ofList (['a', ' ', 'e', 'q'] ++ Json.quote content)) =
      .ok [⟨.word, 0, "a"⟩, ⟨.word, 2, "eq"⟩, literal] := by
    show tokensAt 0 (String.ofList _).toList = _
    rw [String.toList_ofList]
    simpa [Scans, tokensAt_nil, Except.map] using scans
  have comparison : Derives .term [⟨.word, 0, "a"⟩, ⟨.word, 2, "eq"⟩, literal]
      (.compare ⟨none, "a", none⟩ .eq (.string (String.ofList content))) :=
    .compare ⟨rfl, rfl⟩ rfl (.string kind)
  exact parse_eq_ok_iff.mpr
    ⟨fits, _, tokenized, .ofConjunction (.ofTerm comparison), Nat.zero_le _⟩

theorem byteLength_quote_replicate (n : Nat) :
    Text.byteLength (Json.quote (List.replicate n 'x')) = n + 2 := by
  have plain : ∀ n, (List.replicate n 'x').flatMap Json.escapeChar = List.replicate n 'x' := by
    intro n
    induction n with
    | zero => rfl
    | succ n ih => exact congrArg ('x' :: ·) ih
  have bytes : ∀ n, Text.byteLength (List.replicate n 'x') = n := by
    intro n
    induction n with
    | zero => rfl
    | succ n ih =>
      rw [List.replicate_succ, Text.byteLength_cons, ih]
      exact Nat.add_comm 1 n
  have quote : '"'.utf8Size = 1 := rfl
  rw [Json.quote, plain, Text.byteLength_append, Text.byteLength_cons, bytes, Text.byteLength_cons,
    Text.byteLength_nil, quote]
  omega

/-! ### Reading again -/

/-- If the text of a filter is read as the filter, then each of its numbers is read back. -/
theorem readsBack_of_parse_text {limits : Limits} {filter : Filter} (writable : filter.IsWritable)
    (read : parse limits filter.text = .ok filter) {x : Double} (member : x ∈ filter.floats) :
    ReadsBack x := by
  obtain ⟨_, tokens, tokenized, derived, _⟩ := parse_eq_ok_iff.mp read
  obtain ⟨scanned, after, inText, scans⟩ := hasWords_text writable 0 [] (fun _ is => nomatch is)
  have same : scanned = tokens := by
    have found : tokensAt 0 filter.text.toList = .ok scanned := by
      simpa [Scans, tokensAt_nil, Except.map] using scans
    exact Except.ok.inj (found.symm.trans tokenized)
  subst same
  have spelling := derived.spelling
  -- There are as many tokens as words, so no word is empty.
  have kept : (filter.written.map Word.text).filter (· ≠ "") = filter.written.map Word.text := by
    have lengths := spelling.length_eq
    rw [inText] at lengths
    exact List.filter_eq_self.mpr
      (List.length_filter_eq_length_iff.mp (lengths.trans (List.length_map _).symm))
  rw [Spelling, inText, kept, List.forall₂_map_left_iff, List.forall₂_same] at spelling
  exact spelling _ (mem_written_of_mem_floats member) _ rfl

/-- **Reading the text of a filter under the limits that admitted it** gives the filter again if and
only if this text is within the limit on the length and each of its floating point numbers is read
back. The limit on the depth admits it always; a text that is too long is refused for that. -/
theorem parse_text_again {limits : Limits} {text : String} {filter : Filter}
    (read : parse limits text = .ok filter) :
    (parse limits filter.text = .ok filter ↔
      filter.text.utf8ByteSize ≤ limits.maxFilterLength ∧ ∀ x ∈ filter.floats, ReadsBack x) ∧
    (limits.maxFilterLength < filter.text.utf8ByteSize → parse limits filter.text =
      .error ⟨.filterTooLong limits.maxFilterLength, String.ofList (filter.text.toList.take 32), 0⟩) := by
  obtain ⟨writable, same⟩ := isWritable_of_parse read
  obtain ⟨_, _, _, _, bounded⟩ := parse_eq_ok_iff.mp read
  refine ⟨⟨fun again => ?_, fun ⟨fits, readsBack⟩ => ?_⟩, fun tooLong => ?_⟩
  · exact ⟨(parse_eq_ok_iff.mp again).1, fun x => readsBack_of_parse_text writable again⟩
  · have again : parse limits filter.text = .ok filter.grouped :=
      parse_text writable readsBack fits (same.symm ▸ bounded)
    rwa [same] at again
  · rw [parse, parseFragment, if_pos tooLong]
    rfl

/-- A text at both limits, with a number that is written in another way. -/
theorem parse_text_again_tight :
    let limits : Limits := { maxFilterLength := 12, maxFilterDepth := 1 }
    let half : Double := ⟨false, 4602678819172646912, by decide⟩
    let filter : Filter :=
      .valuePath ⟨none, "a", none⟩ (.compare ⟨none, "b", none⟩ .gt (.number (.float half)))
    parse limits "a[b gt 5e-1]" = .ok filter ∧ filter.text = "a[b gt 0.5]" ∧
      parse limits filter.text = .ok filter := by
  intro limits half filter
  have tokenized : tokenize "a[b gt 5e-1]" =
      .ok [⟨.word, 0, "a"⟩, ⟨.openBracket, 1, "["⟩, ⟨.word, 2, "b"⟩, ⟨.word, 4, "gt"⟩,
        ⟨.word, 7, "5e-1"⟩, ⟨.closeBracket, 11, "]"⟩] := rfl
  have comparison : Derives .term [⟨.word, 2, "b"⟩, ⟨.word, 4, "gt"⟩, ⟨.word, 7, "5e-1"⟩]
      (.compare ⟨none, "b", none⟩ .gt (.number (.float half))) :=
    .compare ⟨rfl, rfl⟩ rfl (.number rfl (by decide +kernel))
  have element : Derives .term
      (⟨.word, 0, "a"⟩ :: ⟨.openBracket, 1, "["⟩ :: _ ++ [⟨.closeBracket, 11, "]"⟩]) filter :=
    .valuePath ⟨rfl, rfl⟩ rfl (.ofConjunction (.ofTerm comparison)) rfl
  have read : parse limits "a[b gt 5e-1]" = .ok filter :=
    parse_eq_ok_iff.mpr
      ⟨by decide, _, tokenized, .ofConjunction (.ofTerm element), Nat.le_refl 1⟩
  have readsBack : ∀ x ∈ filter.floats, ReadsBack x := by
    intro x member
    obtain rfl : x = half := by simpa [filter, floats, literalFloats] using member
    unfold ReadsBack
    decide +kernel
  exact ⟨read, by decide +kernel,
    (parse_text_again read).1.mpr ⟨by decide +kernel, readsBack⟩⟩

/-- A space that the text leaves out can be the one byte that is too many, and the text of a number
need not be read as the number. -/
theorem parse_text_again_refused :
    let content := List.replicate 8186 'x'
    let unspaced := String.ofList (['a', ' ', 'e', 'q'] ++ Json.quote content)
    let long : Filter := .compare ⟨none, "a", none⟩ .eq (.string (String.ofList content))
    let x : Double := ⟨false, 5362002194234971879, by decide⟩
    let large : Filter := .compare ⟨none, "a", none⟩ .eq (.number (.float x))
    (parse {} unspaced = .ok long ∧ parse {} long.text ≠ .ok long) ∧
      parse {} "a eq 3e50" = .ok large ∧ parse {} large.text ≠ .ok large := by
  intro content unspaced long x large
  have tokenized : tokenize "a eq 3e50" =
      .ok [⟨.word, 0, "a"⟩, ⟨.word, 2, "eq"⟩, ⟨.word, 5, "3e50"⟩] := rfl
  have comparison : Derives .term [⟨.word, 0, "a"⟩, ⟨.word, 2, "eq"⟩, ⟨.word, 5, "3e50"⟩] large :=
    .compare ⟨rfl, rfl⟩ rfl (.number rfl (by decide +kernel))
  have read : parse {} "a eq 3e50" = .ok large :=
    parse_eq_ok_iff.mpr ⟨by decide, _, tokenized, .ofConjunction (.ofTerm comparison), by decide⟩
  have writable := (isWritable_of_parse read).1
  have neighbour : ¬ ReadsBack x := by
    unfold ReadsBack
    decide +kernel
  refine ⟨⟨parse_unspaced content ?_, fun again => ?_⟩, read, fun again => ?_⟩
  · rw [← Text.byteLength_ofList, Text.byteLength_append, byteLength_quote_replicate]
    decide
  · have size : long.text.utf8ByteSize = 8193 := by
      show ("a" ++ " " ++ "eq" ++ " " ++ (Json.string (String.ofList content)).text).utf8ByteSize = _
      rw [String.utf8ByteSize_append, Json.text, ← Text.byteLength_ofList, Json.written,
        String.toList_ofList, byteLength_quote_replicate]
      rfl
    have fits : long.text.utf8ByteSize ≤ 8192 := (parse_eq_ok_iff.mp again).1
    omega
  · exact neighbour (readsBack_of_parse_text writable again (by simp [large, floats, literalFloats]))

end Filter

end Scim
