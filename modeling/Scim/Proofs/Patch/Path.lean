import Scim.Patch.Path
import Scim.Proofs.Filter.Places
import Scim.Proofs.Reference

/-!
# Patch paths and where their filters end

The bracket that closes a value filter is looked for character by character, before the filter is cut
into tokens. The two agree because they pass over string literals in the same way, and because the
tokens of a filter open and close brackets in pairs: where the filter ends, the count of open
brackets is again what it was where the filter began.
-/

namespace Scim

/-! ### Open brackets -/

namespace Token

/-- How many brackets are open behind some tokens if `depth` are open before them; nothing if they
close a bracket that is not open. -/
def openBrackets? (depth : Nat) : List Token → Option Nat
  | [] => some depth
  | token :: rest =>
    match token.kind, depth with
    | .openBracket, depth => openBrackets? (depth + 1) rest
    | .closeBracket, 0 => none
    | .closeBracket, depth + 1 => openBrackets? depth rest
    | _, depth => openBrackets? depth rest

section OpenBrackets

variable {token : Token} {rest : List Token} {depth : Nat}

theorem openBrackets?_opening (opens : token.kind = .openBracket) :
    openBrackets? depth (token :: rest) = openBrackets? (depth + 1) rest := by
  simp [openBrackets?, opens]

theorem openBrackets?_closing (closes : token.kind = .closeBracket) :
    openBrackets? (depth + 1) (token :: rest) = openBrackets? depth rest := by
  simp [openBrackets?, closes]

theorem openBrackets?_other (notOpening : token.kind ≠ .openBracket)
    (notClosing : token.kind ≠ .closeBracket) :
    openBrackets? depth (token :: rest) = openBrackets? depth rest := by
  cases kind : token.kind with
  | openBracket => exact absurd kind notOpening
  | closeBracket => exact absurd kind notClosing
  | _ => simp [openBrackets?, kind]

theorem openBrackets?_keyword {keyword : String} (is : token.isKeyword keyword = true) :
    openBrackets? depth (token :: rest) = openBrackets? depth rest := by
  have word := kind_of_isKeyword is
  apply openBrackets?_other <;> simp [word]

end OpenBrackets

end Token

namespace Filter

open Token

theorem openBrackets?_literal {token : Token} {value : Json} (is : IsLiteral token value) {depth : Nat}
    {rest : List Token} : openBrackets? depth (token :: rest) = openBrackets? depth rest := by
  cases is with
  | string quoted => apply openBrackets?_other <;> simp [quoted]
  | number word => apply openBrackets?_other <;> simp [word]
  | true is | false is | null is => exact openBrackets?_keyword is

/-- A filter closes the brackets that it opens, and no others. -/
theorem Derives.openBrackets? {level : Level} {tokens : List Token} {filter : Filter}
    (derived : Derives level tokens filter) (depth : Nat) (rest : List Token) :
    Token.openBrackets? depth (tokens ++ rest) = Token.openBrackets? depth rest := by
  have path {token : Token} {path : Reference} (named : IsPath token path) {depth : Nat}
      {rest : List Token} :
      Token.openBrackets? depth (token :: rest) = Token.openBrackets? depth rest := by
    apply openBrackets?_other <;> simp [named.1]
  have parenthesis {token : Token} (is : token.kind = .openParen ∨ token.kind = .closeParen)
      {depth : Nat} {rest : List Token} :
      Token.openBrackets? depth (token :: rest) = Token.openBrackets? depth rest := by
    rcases is with is | is <;> apply openBrackets?_other <;> simp [is]
  induction derived generalizing depth rest with
  | ofTerm _ ih | ofConjunction _ ih => exact ih depth rest
  | or _ is _ ihLeft ihRight | and _ is _ ihLeft ihRight =>
    rw [List.append_assoc, ihLeft, List.cons_append, openBrackets?_keyword is, ihRight]
  | not isNot opens _ closes ih =>
    simp only [List.cons_append, List.append_assoc, List.nil_append]
    rw [openBrackets?_keyword isNot, parenthesis (.inl opens), ih, parenthesis (.inr closes)]
  | group opens _ closes ih =>
    simp only [List.cons_append, List.append_assoc, List.nil_append]
    rw [parenthesis (.inl opens), ih, parenthesis (.inr closes)]
  | present named isPresent =>
    simp only [List.cons_append, List.nil_append]
    rw [path named, openBrackets?_keyword isPresent]
  | compare named isOperator is =>
    simp only [List.cons_append, List.nil_append]
    rw [path named, openBrackets?_keyword isOperator, openBrackets?_literal is]
  | valuePath named opens _ closes ih =>
    -- The bracket raises the count for what is enclosed, and its partner brings it back.
    simp only [List.cons_append, List.append_assoc, List.nil_append]
    rw [path named, openBrackets?_opening opens, ih, openBrackets?_closing closes]

end Filter

/-! ### The closing bracket -/

namespace PatchPath

variable {quotation : Quotation} {depth : Nat} {text inside rest : List Char}

theorem eq_append_of_keep {c : Char} {others : List Char} {found : Option (List Char × List Char)}
    (ih : ∀ {inside}, found = some (inside, rest) → others = inside ++ ']' :: rest)
    (split : splitBracket.keep c found = some (inside, rest)) : c :: others = inside ++ ']' :: rest := by
  obtain ⟨⟨before, behind⟩, found, same⟩ := Option.map_eq_some_iff.mp split
  cases same
  rw [ih found, List.cons_append]

/-- What has been split stands in front of a closing bracket. -/
theorem eq_append_of_splitBracket (split : splitBracket quotation depth text = some (inside, rest)) :
    text = inside ++ ']' :: rest := by
  fun_induction splitBracket quotation depth text generalizing inside with
  | case1 => cases split
  | case6 =>
    cases split
    rfl
  | _ => exact eq_append_of_keep (by assumption) split

/-- Puts some characters in front of what has been split off. -/
def prepend (front : List Char) (split : Option (List Char × List Char)) :
    Option (List Char × List Char) :=
  split.map fun parts => (front ++ parts.1, parts.2)

theorem keep_prepend (c : Char) (front : List Char) (split : Option (List Char × List Char)) :
    splitBracket.keep c (prepend front split) = prepend (c :: front) split := by
  simp [splitBracket.keep, prepend, Function.comp_def]

theorem prepend_prepend (front middle : List Char) (split : Option (List Char × List Char)) :
    prepend front (prepend middle split) = prepend (front ++ middle) split := by
  simp [prepend, Function.comp_def]

/-- A string literal is passed over, whatever brackets stand in it. -/
theorem splitBracket_quoted {body after : List Char}
    (quoted : Token.splitQuoted text = some (body, after)) (depth : Nat) (tail : List Char) :
    splitBracket .inside depth (body ++ tail) = prepend body (splitBracket .outside depth tail) := by
  fun_induction Token.splitQuoted text generalizing body with
  | case1 => cases quoted
  | case2 rest =>
    cases quoted
    simp [splitBracket, splitBracket.keep, prepend]
  | case3 escaped rest ih =>
    obtain ⟨⟨before, behind⟩, found, same⟩ := Option.map_eq_some_iff.mp quoted
    cases same
    -- The escaped character is taken as it is, be it a quote or a backslash.
    simp [splitBracket, ih found, keep_prepend]
  | case4 c rest notQuote notEscape ih =>
    obtain ⟨⟨before, behind⟩, found, same⟩ := Option.map_eq_some_iff.mp quoted
    cases same
    have nonempty : rest ≠ [] := by
      rintro rfl
      cases found
    have plain : c ≠ '\\' := Token.ne_backslash notEscape nonempty
    have notQuote : c ≠ '"' := fun is => notQuote is
    simp [splitBracket, plain, notQuote, ih found, keep_prepend]

/-- A character that is neither a quote nor a bracket is passed over. -/
theorem splitBracket_plain {c : Char} (notQuote : c ≠ '"') (notOpening : c ≠ '[') (notClosing : c ≠ ']') :
    splitBracket .outside depth (c :: text) = splitBracket.keep c (splitBracket .outside depth text) := by
  simp [splitBracket, notQuote, notOpening, notClosing]

/-- A word is passed over. -/
theorem splitBracket_word {word : List Char} (chars : ∀ c ∈ word, Token.isDelimiter c = false)
    (depth : Nat) (tail : List Char) :
    splitBracket .outside depth (word ++ tail) = prepend word (splitBracket .outside depth tail) := by
  induction word with
  | nil => simp [prepend]
  | cons c word ih =>
    have plain := chars c List.mem_cons_self
    have others := ih fun c member => chars c (List.mem_cons_of_mem _ member)
    have passed : splitBracket .outside depth (c :: (word ++ tail)) =
        splitBracket.keep c (splitBracket .outside depth (word ++ tail)) := by
      apply splitBracket_plain <;>
      · rintro rfl
        cases plain
    rw [List.cons_append, passed, others, keep_prepend]

/-- A mark is counted where it is a bracket, and passed over where it is a parenthesis. -/
theorem splitBracket_mark {c : Char} {token : Token} {tokens : List Token} {after : Nat}
    {split : Option (List Char × List Char)} (mark : Token.Kind.ofMark? c = some token.kind)
    (opened : Token.openBrackets? depth (token :: tokens) = some after)
    (next : ∀ {within : Nat}, Token.openBrackets? within tokens = some after →
      splitBracket .outside within text = split) :
    splitBracket .outside depth (c :: text) = splitBracket.keep c split := by
  cases kind : token.kind with
  | openBracket =>
    obtain rfl : c = '[' := by
      unfold Token.Kind.ofMark? at mark
      split at mark <;> simp_all
    rw [Token.openBrackets?_opening kind] at opened
    rw [← next opened]
    simp [splitBracket]
  | closeBracket =>
    obtain rfl : c = ']' := by
      unfold Token.Kind.ofMark? at mark
      split at mark <;> simp_all
    cases depth with
    | zero => simp [Token.openBrackets?, kind] at opened
    | succ depth =>
      rw [Token.openBrackets?_closing kind] at opened
      rw [← next opened]
      simp [splitBracket]
  | _ =>
    rw [Token.openBrackets?_other (by simp [kind]) (by simp [kind])] at opened
    rw [← next opened]
    rw [kind] at mark
    apply splitBracket_plain <;>
    · rintro rfl
      simp [Token.Kind.ofMark?] at mark

/-- Over the tokens of a text the search keeps count of the open brackets as the tokens do. -/
theorem splitBracket_of_openBrackets? {steps position : Nat} {tokens : List Token} {after : Nat}
    (enough : inside.length ≤ steps) (scanned : Token.scan steps position inside = .ok tokens)
    (opened : Token.openBrackets? depth tokens = some after) (tail : List Char) :
    splitBracket .outside depth (inside ++ tail) = prepend inside (splitBracket .outside after tail) := by
  fun_induction Token.scan steps position inside generalizing tokens depth with
  | case1 =>
    cases scanned
    cases opened
    simp [prepend]
  | case2 _ text nonempty => exact absurd (List.length_eq_zero_iff.mp (Nat.le_zero.mp enough)) nonempty
  | case3 steps position c rest blank ih =>
    have passed : splitBracket .outside depth (c :: (rest ++ tail)) =
        splitBracket.keep c (splitBracket .outside depth (rest ++ tail)) := by
      apply splitBracket_plain <;>
      · rintro rfl
        cases blank
    rw [List.cons_append, passed, ih (Nat.le_of_succ_le_succ enough) scanned opened, keep_prepend]
  | case4 steps position c rest _ kind mark ih =>
    obtain ⟨following, found, same⟩ := bind_eq_ok_iff.mp scanned
    cases same
    have counted := splitBracket_mark mark opened fun opened =>
      ih (Nat.le_of_succ_le_succ enough) found opened
    rw [List.cons_append, counted, keep_prepend]
  | case5 | case6 => cases scanned
  | case7 steps position rest body behind quoted =>
    rename_i ih
    obtain ⟨following, found, same⟩ := bind_eq_ok_iff.mp scanned
    cases same
    have literal := Token.append_of_splitQuoted quoted
    have shorter : behind.length ≤ steps := by
      simp only [literal, List.length_cons, List.length_append] at enough
      omega
    rw [Token.openBrackets?_other (by simp) (by simp)] at opened
    -- From the quote on, the search is inside the literal until the literal is over.
    have entered : splitBracket .outside depth ('"' :: (rest ++ tail)) =
        splitBracket.keep '"' (splitBracket .inside depth (rest ++ tail)) := by
      simp [splitBracket]
    rw [List.cons_append, entered, literal, List.append_assoc, splitBracket_quoted (literal ▸ quoted),
      ih shorter found opened, prepend_prepend, keep_prepend]
  | case8 steps position c rest notBlank noMark notQuote word =>
    rename_i ih
    obtain ⟨following, found, same⟩ := bind_eq_ok_iff.mp scanned
    cases same
    have start : Token.isDelimiter c = false := Token.not_isDelimiter (by simp_all) noMark notQuote
    have shorter : ((c :: rest).dropWhile (!Token.isDelimiter ·)).length ≤ steps := by
      rw [List.dropWhile_cons_of_pos (by simp [start])]
      exact Nat.le_trans (List.dropWhile_sublist _).length_le (Nat.le_of_succ_le_succ enough)
    rw [Token.openBrackets?_other (by simp) (by simp)] at opened
    have chars : ∀ c ∈ word, Token.isDelimiter c = false := by
      intro c member
      simpa using List.all_eq_true.mp List.all_takeWhile c member
    have whole : word ++ (c :: rest).dropWhile (!Token.isDelimiter ·) = c :: rest :=
      List.takeWhile_append_dropWhile
    have passed := splitBracket_word chars depth
      ((c :: rest).dropWhile (!Token.isDelimiter ·) ++ tail)
    rw [ih shorter found opened, ← List.append_assoc, whole] at passed
    rw [passed, prepend_prepend, whole]

/-- The bracket behind a filter is the one that is found. -/
theorem splitBracket_of_parse {limits : Limits} {filter : Filter}
    (parsed : Filter.parse limits (String.ofList inside) = .ok filter) (behind : List Char) :
    splitBracket .outside 0 (inside ++ ']' :: behind) = some (inside, behind) := by
  obtain ⟨_, tokens, tokenized, derived, _⟩ := Filter.parse_eq_ok_iff.mp parsed
  rw [Token.tokenize, String.toList_ofList] at tokenized
  have closed : Token.openBrackets? 0 tokens = some 0 := by
    simpa [Token.openBrackets?] using derived.openBrackets? 0 []
  rw [splitBracket_of_openBrackets? (Nat.le_refl _) tokenized closed]
  simp [splitBracket, prepend]

/-! ### The grammar of paths -/

theorem parseReference_eq_ok_iff {part : List Char} {whole : String} {position : Nat}
    {reference : Reference} :
    parseReference part whole position = .ok reference ↔
      Reference.parse (String.ofList part) = .ok reference := by
  unfold parseReference
  cases Reference.parse (String.ofList part) <;> simp

/-- What may follow a value filter: nothing, or one name behind a dot. -/
inductive IsSub : List Char → Option String → Prop
  | none : IsSub [] none
  | named {name : List Char} : isName name = true → IsSub ('.' :: name) (some (String.ofList name))

theorem parseSub_eq_ok_iff {whole : String} {position : Nat} {sub : Option String} :
    parseSub rest whole position = .ok sub ↔ IsSub rest sub := by
  constructor
  · intro read
    unfold parseSub at read
    split at read
    · cases read
      exact .none
    · obtain ⟨reference, parsed, read⟩ := bind_eq_ok_iff.mp read
      split at read
      · cases read
      next bare =>
        cases read
        simp only [Bool.or_eq_true, not_or, Bool.not_eq_true, Option.isSome_eq_false_iff,
          Option.isNone_iff_eq_none] at bare
        obtain ⟨is, rfl⟩ := Reference.parse_bare_eq_ok_iff.mp ⟨parseReference_eq_ok_iff.mp parsed, bare⟩
        exact .named is
    · cases read
  · intro is
    cases is with
    | none => rfl
    | @named name is =>
      have parsed := (Reference.parse_bare_eq_ok_iff.mpr ⟨is, rfl⟩).1
      have read : parseReference name whole (position + 1) = .ok ⟨none, String.ofList name, none⟩ :=
        parseReference_eq_ok_iff.mpr parsed
      rw [parseSub, read]
      rfl

/-- The parts of a filtered path: an attribute, a filter between brackets, and perhaps the name of a
sub-attribute. -/
structure IsSplit (limits : Limits) (text : String) (before inside behind : List Char)
    (path : PatchPath) : Prop where
  text_eq : text.toList = before ++ '[' :: (inside ++ ']' :: behind)
  first : '[' ∉ before
  named : Reference.parse (String.ofList before) = .ok path.reference
  whole : path.reference.sub = none
  filtered : ∃ filter, path.filter = some filter ∧
    Filter.parse limits (String.ofList inside) = .ok filter
  followed : IsSub behind path.sub

section Parse

open Scim.Filter (Derives)

variable {limits : Limits} {text : String} {path : PatchPath}

/-- Without a bracket a path is a reference. -/
theorem parse_of_notMem (fits : text.utf8ByteSize ≤ limits.maxFilterLength) (plain : '[' ∉ text.toList) :
    parse limits text = .ok path ↔
      ∃ reference, Reference.parse text = .ok reference ∧ path = { reference } := by
  have notLong : ¬ limits.maxFilterLength < text.utf8ByteSize := Nat.not_lt.mpr fits
  unfold parse
  rw [if_neg notLong, Text.splitFirst_eq_none_iff.mpr plain]
  simp only [bind_eq_ok_iff, parseReference_eq_ok_iff, String.ofList_toList]
  apply exists_congr
  intro reference
  apply and_congr_right
  intro _
  constructor
  · rintro ⟨⟩
    rfl
  · rintro rfl
    rfl

/-- Behind the first bracket stand a filter, the bracket that closes it and what may follow. -/
theorem parse_of_splitFirst {before after : List Char}
    (fits : text.utf8ByteSize ≤ limits.maxFilterLength)
    (split : Text.splitFirst '[' text.toList = some (before, after)) :
    parse limits text = .ok path ↔ ∃ inside behind, IsSplit limits text before inside behind path := by
  have notLong : ¬ limits.maxFilterLength < text.utf8ByteSize := Nat.not_lt.mpr fits
  obtain ⟨text_eq, first⟩ := Text.splitFirst_eq_some_iff.mp split
  unfold parse
  rw [if_neg notLong, split]
  constructor
  · intro read
    obtain ⟨reference, named, read⟩ := bind_eq_ok_iff.mp read
    by_cases withSub : reference.sub.isSome = true
    · rw [if_pos withSub] at read
      cases read
    rw [if_neg withSub] at read
    split at read
    · cases read
    next inside behind closed =>
      obtain ⟨filter, filtered, read⟩ := bind_eq_ok_iff.mp read
      obtain ⟨sub, followed, read⟩ := bind_eq_ok_iff.mp read
      cases read
      refine ⟨inside, behind, ?_, first, parseReference_eq_ok_iff.mp named, by simpa using withSub,
        ⟨filter, rfl, Filter.parseFragment_eq_ok_iff.mp filtered⟩,
        parseSub_eq_ok_iff.mp followed⟩
      rw [text_eq, eq_append_of_splitBracket closed]
  · rintro ⟨inside, behind, parts⟩
    obtain ⟨reference, found, sub⟩ := path
    obtain ⟨filter, rfl, filtered⟩ := parts.filtered
    have rest : after = inside ++ ']' :: behind := by
      have same := text_eq.symm.trans parts.text_eq
      simpa using same
    have whole : ¬ reference.sub.isSome = true := by simp [show reference.sub = none from parts.whole]
    subst rest
    -- The search stops where the split has its closing bracket.
    have closed := splitBracket_of_parse filtered behind
    rw [bind_eq_ok_iff]
    refine ⟨reference, parseReference_eq_ok_iff.mpr parts.named, ?_⟩
    rw [if_neg whole, closed]
    simp only [bind_eq_ok_iff]
    exact ⟨filter, Filter.parseFragment_eq_ok_iff.mpr filtered, sub,
      parseSub_eq_ok_iff.mpr parts.followed, rfl⟩

theorem IsSub.unique {other : Option String} {sub : Option String} (first : IsSub rest sub)
    (second : IsSub rest other) : sub = other := by
  cases first <;> cases second <;> rfl

/-- However a text is split, the parts are the same. -/
theorem IsSplit.unique {before before' inside inside' behind behind' : List Char} {other : PatchPath}
    (split : IsSplit limits text before inside behind path)
    (second : IsSplit limits text before' inside' behind' other) :
    before = before' ∧ inside = inside' ∧ behind = behind' ∧ path = other := by
  have opening := Text.splitFirst_eq_some_iff.mpr ⟨split.text_eq, split.first⟩
  rw [Text.splitFirst_eq_some_iff.mpr ⟨second.text_eq, second.first⟩] at opening
  obtain ⟨rfl, after⟩ : before' = before ∧ _ := by simpa using opening
  obtain ⟨filter, found, filtered⟩ := split.filtered
  obtain ⟨filter', found', filtered'⟩ := second.filtered
  -- The search finds both closing brackets, so they are one.
  have closing := splitBracket_of_parse filtered behind
  rw [← after, splitBracket_of_parse filtered' behind'] at closing
  obtain ⟨rfl, rfl⟩ : inside' = inside ∧ behind' = behind := by simpa using closing
  have references : path.reference = other.reference := by
    have named := split.named
    rw [second.named] at named
    exact (Except.ok.inj named).symm
  have filters : path.filter = other.filter := by
    rw [filtered'] at filtered
    rw [found, found', Except.ok.inj filtered]
  refine ⟨rfl, rfl, rfl, ?_⟩
  obtain ⟨reference, filter, sub⟩ := path
  obtain ⟨reference', filter', sub'⟩ := other
  simp only [PatchPath.mk.injEq]
  exact ⟨references, filters, split.followed.unique second.followed⟩

/-- **Exactness of paths**: a text within the limit is read as a plain path if and only if no bracket
stands in it and it is a reference, and as a filtered path if and only if it can be split into an
attribute, a filter that is accepted on its own, and perhaps the name of a sub-attribute. There is
only one way to split it, whatever stands in the literals and in the inner value paths of the
filter. -/
theorem parse_iff_isSplit (fits : text.utf8ByteSize ≤ limits.maxFilterLength) :
    (∀ reference, parse limits text = .ok { reference } ↔
      '[' ∉ text.toList ∧ Reference.parse text = .ok reference) ∧
    (∀ reference filter sub, parse limits text = .ok ⟨reference, some filter, sub⟩ ↔
      ∃ before inside behind,
        IsSplit limits text before inside behind ⟨reference, some filter, sub⟩) ∧
    (∀ path, parse limits text = .ok path → path.filter = none → path.sub = none) ∧
    ∀ before inside behind path before' inside' behind' other,
      IsSplit limits text before inside behind path →
      IsSplit limits text before' inside' behind' other →
        before = before' ∧ inside = inside' ∧ behind = behind' ∧ path = other := by
  have plain {path : PatchPath} (read : parse limits text = .ok path) (unfiltered : path.filter = none) :
      '[' ∉ text.toList := by
    intro member
    cases split : Text.splitFirst '[' text.toList with
    | none => exact absurd member (Text.splitFirst_eq_none_iff.mp split)
    | some parts =>
      obtain ⟨_, _, parts⟩ := (parse_of_splitFirst fits split).mp read
      obtain ⟨filter, found, _⟩ := parts.filtered
      rw [unfiltered] at found
      cases found
  refine ⟨fun reference => ⟨fun read => ?_, fun ⟨absent, named⟩ => ?_⟩, ?_, ?_, ?_⟩
  · have absent := plain read rfl
    obtain ⟨_, named, same⟩ := (parse_of_notMem fits absent).mp read
    cases same
    exact ⟨absent, named⟩
  · exact (parse_of_notMem fits absent).mpr ⟨reference, named, rfl⟩
  · intro reference filter sub
    constructor
    · intro read
      cases split : Text.splitFirst '[' text.toList with
      | none =>
        have absent := Text.splitFirst_eq_none_iff.mp split
        obtain ⟨_, _, same⟩ := (parse_of_notMem fits absent).mp read
        cases same
      | some parts => exact ⟨_, (parse_of_splitFirst fits split).mp read⟩
    · rintro ⟨before, inside, behind, parts⟩
      have split := Text.splitFirst_eq_some_iff.mpr ⟨parts.text_eq, parts.first⟩
      exact (parse_of_splitFirst fits split).mpr ⟨inside, behind, parts⟩
  · intro path read unfiltered
    obtain ⟨_, _, rfl⟩ := (parse_of_notMem fits (plain read unfiltered)).mp read
    rfl
  · intro before inside behind path before' inside' behind' other
    exact IsSplit.unique

/-- Brackets, quotes and backslashes in a literal do not end the filter, and an inner value path
ends its own filter only. -/
theorem parse_brackets_in_literal :
    let filter : Filter := .logical (.valuePath ⟨none, "x", none⟩ (.present ⟨none, "y", none⟩)) .and
      (.compare ⟨none, "type", none⟩ .eq (.string "]\"[\\"))
    "emails[x[y pr] and type eq \"]\\\"[\\\\\"].display".utf8ByteSize ≤
        ({} : Limits).maxFilterLength ∧
      parse {} "emails[x[y pr] and type eq \"]\\\"[\\\\\"].display" =
        .ok ⟨⟨none, "emails", none⟩, some filter, some "display"⟩ := by
  intro filter
  have tokenized : Token.tokenize "x[y pr] and type eq \"]\\\"[\\\\\"" =
      .ok [⟨.word, 0, "x"⟩, ⟨.openBracket, 1, "["⟩, ⟨.word, 2, "y"⟩, ⟨.word, 4, "pr"⟩,
        ⟨.closeBracket, 6, "]"⟩, ⟨.word, 8, "and"⟩, ⟨.word, 12, "type"⟩, ⟨.word, 17, "eq"⟩,
        ⟨.string "]\"[\\", 20, "\"]\\\"[\\\\\""⟩] := rfl
  have element : Derives .term
      (⟨.word, 0, "x"⟩ :: ⟨.openBracket, 1, "["⟩ :: [⟨.word, 2, "y"⟩, ⟨.word, 4, "pr"⟩] ++
        [⟨.closeBracket, 6, "]"⟩])
      (.valuePath ⟨none, "x", none⟩ (.present ⟨none, "y", none⟩)) :=
    .valuePath ⟨rfl, rfl⟩ rfl (.ofConjunction (.ofTerm (.present ⟨rfl, rfl⟩ rfl))) rfl
  have comparison : Derives .term
      [⟨.word, 12, "type"⟩, ⟨.word, 17, "eq"⟩, ⟨.string "]\"[\\", 20, "\"]\\\"[\\\\\""⟩]
      (.compare ⟨none, "type", none⟩ .eq (.string "]\"[\\")) :=
    .compare ⟨rfl, rfl⟩ rfl (.string rfl)
  have derived : Derives .disjunction (_ ++ ⟨.word, 8, "and"⟩ :: _) filter :=
    .ofConjunction (.and (.ofTerm element) rfl comparison)
  have filtered : Filter.parse {} "x[y pr] and type eq \"]\\\"[\\\\\"" = .ok filter :=
    Filter.parse_eq_ok_iff.mpr ⟨by decide, _, tokenized, derived, by decide⟩
  have parts : IsSplit {} "emails[x[y pr] and type eq \"]\\\"[\\\\\"].display" "emails".toList
      "x[y pr] and type eq \"]\\\"[\\\\\"".toList ".display".toList
      ⟨⟨none, "emails", none⟩, some filter, some "display"⟩ :=
    ⟨by decide, by decide, rfl, rfl, ⟨filter, rfl, by rwa [String.ofList_toList]⟩, .named rfl⟩
  exact ⟨by decide, ((parse_iff_isSplit (by decide)).2.1 _ _ _).mpr ⟨_, _, _, parts⟩⟩

end Parse

end PatchPath

end Scim
