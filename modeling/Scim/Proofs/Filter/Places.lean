import Scim.Proofs.Filter.Parsing
import Scim.Proofs.Filter.Tokens
import Mathlib.Data.List.Forall2

/-!
# Places of faults

The functions that read a filter look at the kinds and the texts of tokens and take their positions
over into faults, as they are. So what one row of tokens leads to, a row that differs in its positions
leads to as well, with faults at the positions of its own tokens. This is one statement for each
function, which serves twice: with a row beside itself, it says that a fault is at one of the tokens
or at the end, and with a row beside the same row further on in a longer text, that faults move along.
-/

namespace Scim

/-- The same fault in a text that starts further on. -/
def FilterError.shift (error : FilterError) (offset : Nat) : FilterError :=
  { error with position := error.position + offset }

namespace Filter.Reading

/-! ### Rows of tokens that differ in their positions -/

/-- Tokens that a reader cannot tell apart but by their positions. -/
def Alike (related : Token → Token → Prop) : Prop :=
  ∀ {token other}, related token other → token.kind = other.kind ∧ token.text = other.text

/-- Two rows of tokens lead to the same: to results that agree, to one fault at tokens that are
related, or to one fault at the ends. -/
inductive Corresponds (related : Token → Token → Prop) (finish finishOther : Nat) {α : Type}
    (agree : α → α → Prop) : Except FilterError α → Except FilterError α → Prop
  | ok {left right : α} (same : agree left right) :
      Corresponds related finish finishOther agree (.ok left) (.ok right)
  | atToken {token other : Token} (fault : FilterFault) (grammatical : fault ≠ .invalidString)
      (same : related token other) :
      Corresponds related finish finishOther agree (.error ⟨fault, token.text, token.position⟩)
        (.error ⟨fault, other.text, other.position⟩)
  | atEnd (expected : Expectation) :
      Corresponds related finish finishOther agree (.error ⟨.endOfFilter expected, "", finish⟩)
        (.error ⟨.endOfFilter expected, "", finishOther⟩)

section Rows

variable {related : Token → Token → Prop} {finish finishOther maxDepth : Nat} {tokens others : List Token}
  {token other : Token}

theorem Corresponds.bind {α β : Type} {agree : α → α → Prop} {agreeNext : β → β → Prop}
    {first second : Except FilterError α} {next nextOther : α → Except FilterError β}
    (same : Corresponds related finish finishOther agree first second)
    (following : ∀ left right, agree left right →
      Corresponds related finish finishOther agreeNext (next left) (nextOther right)) :
    Corresponds related finish finishOther agreeNext (first >>= next) (second >>= nextOther) := by
  cases same with
  | ok same => exact following _ _ same
  | atToken fault grammatical same => exact .atToken fault grammatical same
  | atEnd expected => exact .atEnd expected

/-- A fault is at a token that is related to one of the other row, or at the end. -/
theorem Corresponds.exists_of_eq_error {α : Type} {agree : α → α → Prop}
    {first second : Except FilterError α} {error : FilterError}
    (same : Corresponds related finish finishOther agree first second) (failed : first = .error error) :
    error.fault ≠ .invalidString ∧
      ((∃ token other, related token other ∧ error.near = token.text ∧ error.position = token.position) ∨
        error.near = "" ∧ error.position = finish) := by
  cases same with
  | ok => cases failed
  | @atToken token other fault grammatical same =>
    cases failed
    exact ⟨grammatical, .inl ⟨token, other, same, rfl, rfl⟩⟩
  | atEnd expected =>
    cases failed
    exact ⟨by simp, .inr ⟨rfl, rfl⟩⟩

theorem Corresponds.eq_mapError {α : Type} {offset : Nat} {first second : Except FilterError α}
    (same : Corresponds (fun token other => other = token.shift offset) finish (finish + offset) Eq
      first second) : second = first.mapError (·.shift offset) := by
  cases same with
  | ok same =>
    rw [same]
    rfl
  | atToken fault _ same =>
    rw [same]
    rfl
  | atEnd expected => rfl

/-- The same was read, and what is left over is related. -/
def SameRest (related : Token → Token → Prop) {α : Type} (left right : α × List Token) : Prop :=
  left.1 = right.1 ∧ List.Forall₂ related left.2 right.2

theorem Alike.isKeyword (alike : Alike related) (same : related token other) (keyword : String) :
    other.isKeyword keyword = token.isKeyword keyword := by
  obtain ⟨kind, text⟩ := alike same
  rw [Token.isKeyword, Token.isKeyword, kind, text]

theorem expect_corresponds (alike : Alike related) (same : List.Forall₂ related tokens others) (kind : Token.Kind)
    (expected : Expectation) :
    Corresponds related finish finishOther (List.Forall₂ related) (expect ⟨maxDepth, finish⟩ kind expected tokens)
      (expect ⟨maxDepth, finishOther⟩ kind expected others) := by
  cases same with
  | nil => exact .atEnd expected
  | cons head tail =>
    rw [expect, expect, (alike head).1]
    split
    · exact .ok tail
    · exact .atToken _ (by simp) head

theorem enter_corresponds (same : related token other) (depth : Nat) :
    Corresponds related finish finishOther (fun _ _ => True) (enter ⟨maxDepth, finish⟩ depth token)
      (enter ⟨maxDepth, finishOther⟩ depth other) := by
  rw [enter, enter]
  split
  · exact .ok trivial
  · exact .atToken _ (by simp) same

theorem path_corresponds (alike : Alike related) (same : related token other) :
    Corresponds related finish finishOther Eq (path token) (path other) := by
  rw [path, path, (alike same).2]
  split
  · exact .ok rfl
  · exact .atToken _ (by simp) same

theorem literal_corresponds (alike : Alike related) (same : List.Forall₂ related tokens others) :
    Corresponds related finish finishOther (SameRest related) (literal ⟨maxDepth, finish⟩ tokens)
      (literal ⟨maxDepth, finishOther⟩ others) := by
  cases same with
  | nil => exact .atEnd _
  | cons head tail =>
    obtain ⟨kind, text⟩ := alike head
    rw [literal, literal, kind, text]
    split
    · exact .ok ⟨rfl, tail⟩
    · split
      · exact .ok ⟨rfl, tail⟩
      · exact .atToken _ (by simp) head
    · exact .atToken _ (by simp) head

theorem opensParenthesis_eq (alike : Alike related) (same : List.Forall₂ related tokens others) :
    opensParenthesis others = opensParenthesis tokens := by
  cases same with
  | nil => rfl
  | cons head tail => rw [opensParenthesis, opensParenthesis, (alike head).1]

/-! The functions call each other, so that their statements hold together, by induction on the steps.
What is read first leaves rows that are related again, and these are what is read next. -/

mutual

theorem disjunction_corresponds (alike : Alike related) {tokens others : List Token}
    (same : List.Forall₂ related tokens others)
    (depth steps : Nat) :
    Corresponds related finish finishOther (SameRest related) (disjunction ⟨maxDepth, finish⟩ steps depth tokens)
      (disjunction ⟨maxDepth, finishOther⟩ steps depth others) := by
  match steps with
  | 0 =>
    rw [disjunction, disjunction]
    exact .atEnd _
  | steps + 1 =>
    rw [disjunction, disjunction]
    refine (conjunction_corresponds alike same depth steps).bind ?_
    rintro ⟨first, rest⟩ ⟨_, following⟩ ⟨rfl, same⟩
    exact moreDisjuncts_corresponds alike same first depth steps
termination_by structural steps

theorem moreDisjuncts_corresponds (alike : Alike related) {tokens others : List Token}
    (same : List.Forall₂ related tokens others)
    (left : Filter) (depth steps : Nat) :
    Corresponds related finish finishOther (SameRest related)
      (moreDisjuncts ⟨maxDepth, finish⟩ steps depth left tokens)
      (moreDisjuncts ⟨maxDepth, finishOther⟩ steps depth left others) := by
  match steps, same with
  | _, .nil =>
    rw [moreDisjuncts, moreDisjuncts]
    exact .ok ⟨rfl, .nil⟩
  | 0, .cons head tail =>
    rw [moreDisjuncts, moreDisjuncts]
    · exact .ok ⟨rfl, .cons head tail⟩
    all_goals simp
  | steps + 1, .cons head tail =>
    rw [moreDisjuncts, moreDisjuncts, alike.isKeyword head]
    split
    · refine (conjunction_corresponds alike tail depth steps).bind ?_
      rintro ⟨right, rest⟩ ⟨_, following⟩ ⟨rfl, same⟩
      exact moreDisjuncts_corresponds alike same _ depth steps
    · exact .ok ⟨rfl, .cons head tail⟩
termination_by structural steps

theorem conjunction_corresponds (alike : Alike related) {tokens others : List Token}
    (same : List.Forall₂ related tokens others)
    (depth steps : Nat) :
    Corresponds related finish finishOther (SameRest related) (conjunction ⟨maxDepth, finish⟩ steps depth tokens)
      (conjunction ⟨maxDepth, finishOther⟩ steps depth others) := by
  match steps with
  | 0 =>
    rw [conjunction, conjunction]
    exact .atEnd _
  | steps + 1 =>
    rw [conjunction, conjunction]
    refine (term_corresponds alike same depth steps).bind ?_
    rintro ⟨first, rest⟩ ⟨_, following⟩ ⟨rfl, same⟩
    exact moreConjuncts_corresponds alike same first depth steps
termination_by structural steps

theorem moreConjuncts_corresponds (alike : Alike related) {tokens others : List Token}
    (same : List.Forall₂ related tokens others)
    (left : Filter) (depth steps : Nat) :
    Corresponds related finish finishOther (SameRest related)
      (moreConjuncts ⟨maxDepth, finish⟩ steps depth left tokens)
      (moreConjuncts ⟨maxDepth, finishOther⟩ steps depth left others) := by
  match steps, same with
  | _, .nil =>
    rw [moreConjuncts, moreConjuncts]
    exact .ok ⟨rfl, .nil⟩
  | 0, .cons head tail =>
    rw [moreConjuncts, moreConjuncts]
    · exact .ok ⟨rfl, .cons head tail⟩
    all_goals simp
  | steps + 1, .cons head tail =>
    rw [moreConjuncts, moreConjuncts, alike.isKeyword head]
    split
    · refine (term_corresponds alike tail depth steps).bind ?_
      rintro ⟨right, rest⟩ ⟨_, following⟩ ⟨rfl, same⟩
      exact moreConjuncts_corresponds alike same _ depth steps
    · exact .ok ⟨rfl, .cons head tail⟩
termination_by structural steps

theorem term_corresponds (alike : Alike related) {tokens others : List Token}
    (same : List.Forall₂ related tokens others)
    (depth steps : Nat) :
    Corresponds related finish finishOther (SameRest related) (term ⟨maxDepth, finish⟩ steps depth tokens)
      (term ⟨maxDepth, finishOther⟩ steps depth others) := by
  match steps, same with
  | _, .nil =>
    rw [term, term]
    exact .atEnd _
  | 0, .cons head tail =>
    rw [term, term]
    · exact .atEnd _
    all_goals simp
  | steps + 1, .cons head tail =>
    -- Both rows take one branch, since it is chosen by kinds and keywords.
    rw [term, term, (alike head).1, alike.isKeyword head, opensParenthesis_eq alike tail]
    split
    · refine (parenthesized_corresponds alike head (.cons head tail) depth steps).bind ?_
      rintro ⟨inner, rest⟩ ⟨_, following⟩ ⟨rfl, same⟩
      exact .ok ⟨rfl, same⟩
    · split
      · refine (parenthesized_corresponds alike head tail depth steps).bind ?_
        rintro ⟨inner, rest⟩ ⟨_, following⟩ ⟨rfl, same⟩
        exact .ok ⟨rfl, same⟩
      · refine (path_corresponds alike head).bind ?_
        rintro path _ rfl
        exact attributeTerm_corresponds alike head tail path depth steps
    · exact .atToken _ (by simp) head
termination_by structural steps

theorem parenthesized_corresponds (alike : Alike related) {token other : Token} {tokens others : List Token}
    (opening : related token other) (same : List.Forall₂ related tokens others) (depth steps : Nat) :
    Corresponds related finish finishOther (SameRest related)
      (parenthesized ⟨maxDepth, finish⟩ steps depth token tokens)
      (parenthesized ⟨maxDepth, finishOther⟩ steps depth other others) := by
  match steps with
  | 0 =>
    rw [parenthesized, parenthesized]
    exact .atEnd _
  | steps + 1 =>
    rw [parenthesized, parenthesized]
    refine (enter_corresponds opening depth).bind fun _ _ _ => ?_
    refine (expect_corresponds alike same .openParen .openingParenthesis).bind fun _ _ inside => ?_
    refine (disjunction_corresponds alike inside (depth + 1) steps).bind ?_
    rintro ⟨inner, rest⟩ ⟨_, following⟩ ⟨rfl, behind⟩
    refine (expect_corresponds alike behind .closeParen .closingParenthesis).bind fun _ _ behind => ?_
    exact .ok ⟨rfl, behind⟩
termination_by structural steps

theorem attributeTerm_corresponds (alike : Alike related) {token other : Token} {tokens others : List Token}
    (named : related token other) (same : List.Forall₂ related tokens others) (path : Reference)
    (depth steps : Nat) :
    Corresponds related finish finishOther (SameRest related)
      (attributeTerm ⟨maxDepth, finish⟩ steps depth token path tokens)
      (attributeTerm ⟨maxDepth, finishOther⟩ steps depth other path others) := by
  match steps, same with
  | _, .nil =>
    rw [attributeTerm, attributeTerm]
    exact .atEnd _
  | 0, .cons head tail =>
    rw [attributeTerm, attributeTerm]
    · exact .atEnd _
    all_goals simp
  | steps + 1, .cons head tail =>
    rw [attributeTerm, attributeTerm, (alike head).1, alike.isKeyword head, (alike head).2, (alike named).2]
    split
    · refine (enter_corresponds head depth).bind fun _ _ _ => ?_
      refine (disjunction_corresponds alike tail (depth + 1) steps).bind ?_
      rintro ⟨inner, rest⟩ ⟨_, following⟩ ⟨rfl, behind⟩
      refine (expect_corresponds alike behind .closeBracket .closingBracket).bind fun _ _ behind => ?_
      exact .ok ⟨rfl, behind⟩
    · split
      · exact .ok ⟨rfl, tail⟩
      · split
        · exact .atToken _ (by simp) head
        · refine (literal_corresponds alike tail).bind ?_
          rintro ⟨value, rest⟩ ⟨_, following⟩ ⟨rfl, behind⟩
          exact .ok ⟨rfl, behind⟩
    · exact .atToken _ (by simp) head
termination_by structural steps

end

theorem whole_corresponds (alike : Alike related) (same : List.Forall₂ related tokens others) :
    Corresponds related finish finishOther Eq (whole ⟨maxDepth, finish⟩ tokens)
      (whole ⟨maxDepth, finishOther⟩ others) := by
  rw [whole, whole, same.length_eq]
  refine (disjunction_corresponds alike same 0 _).bind ?_
  rintro ⟨filter, rest⟩ ⟨_, following⟩ ⟨rfl, same⟩
  cases same with
  | nil => exact .ok rfl
  | cons head tail => exact .atToken _ (by simp) head

end Rows

/-- A row of tokens beside itself: a fault is at one of the tokens, or at the end. -/
theorem exists_of_whole_eq_error {reading : Reading} {tokens : List Token} {error : FilterError}
    (failed : reading.whole tokens = .error error) :
    error.fault ≠ .invalidString ∧
      ((∃ token ∈ tokens, error.near = token.text ∧ error.position = token.position) ∨
        error.near = "" ∧ error.position = reading.finish) := by
  have alike : Alike fun token other => token = other ∧ token ∈ tokens := fun same => by simp [same.1]
  have itself : List.Forall₂ (fun token other => token = other ∧ token ∈ tokens) tokens tokens :=
    List.forall₂_same.mpr fun _ member => ⟨rfl, member⟩
  have same : Corresponds _ reading.finish reading.finish Eq (reading.whole tokens)
    (reading.whole tokens) := whole_corresponds alike itself
  obtain ⟨grammatical, place⟩ := same.exists_of_eq_error failed
  refine ⟨grammatical, place.imp ?_ id⟩
  rintro ⟨token, _, ⟨_, member⟩, at'⟩
  exact ⟨token, member, at'⟩

/-- A row of tokens beside the same one further on: faults move with the tokens. -/
theorem whole_shift (maxDepth finish : Nat) (tokens : List Token) (offset : Nat) :
    whole ⟨maxDepth, finish + offset⟩ (tokens.map (Token.shift · offset)) =
      (whole ⟨maxDepth, finish⟩ tokens).mapError (·.shift offset) := by
  have alike : Alike fun token other => other = token.shift offset := by
    rintro token _ rfl
    exact ⟨rfl, rfl⟩
  have moved : List.Forall₂ (fun token other => other = token.shift offset) tokens
      (tokens.map (Token.shift · offset)) :=
    List.forall₂_map_right_iff.mpr (List.forall₂_same.mpr fun _ _ => rfl)
  exact (whole_corresponds alike moved).eq_mapError

end Filter.Reading

/-! ### Places in a text -/

/-- At byte `position` of a text that starts at byte `start` stands `near`. Nothing stands only at the
end. -/
def Text.StandsAt (start : Nat) (text : List Char) (near : String) (position : Nat) : Prop :=
  ∃ before behind, text = before ++ near.toList ++ behind ∧
    position = start + Text.byteLength before ∧ (near = "" → behind = [])

namespace Text

variable {start position : Nat} {text rest : List Char} {near : String}

theorem standsAt_front (nonempty : text ≠ []) (rest : List Char) :
    StandsAt start (text ++ rest) (String.ofList text) start :=
  ⟨[], rest, by simp, by simp, fun empty => absurd (by simpa using congrArg String.toList empty) nonempty⟩

theorem standsAt_whole (text : String) : StandsAt start text.toList text start :=
  ⟨[], [], by simp, by simp, fun _ => rfl⟩

theorem standsAt_end (text : List Char) : StandsAt start text "" (start + byteLength text) :=
  ⟨text, [], by simp, rfl, fun _ => rfl⟩

theorem StandsAt.behind (front : List Char)
    (stands : StandsAt (start + byteLength front) rest near position) :
    StandsAt start (front ++ rest) near position := by
  obtain ⟨before, behind, rfl, rfl, atEnd⟩ := stands
  exact ⟨front ++ before, behind, by simp, by simp [Nat.add_assoc], atEnd⟩

end Text

namespace Token

variable {start : Nat} {text : List Char}

/-- Tokens are where they say. -/
theorem IsCut.standsAt {tokens : List Token} (cut : IsCut start text tokens) :
    ∀ token ∈ tokens, Text.StandsAt start text token.text token.position := by
  induction cut with
  | blank _ => exact nofun
  | @token _ gap raw rest kind _ _ spells _ _ ih =>
    refine List.forall_mem_cons.mpr ⟨?_, fun token member => ((ih token member).behind raw).behind gap⟩
    exact (Text.standsAt_front spells.ne_nil rest).behind gap

/-- The fault in a text is where it says. -/
theorem FailsAt.standsAt {error : FilterError} (fails : FailsAt start text error) :
    Text.StandsAt start text error.near error.position := by
  obtain ⟨before, rest, tokens, rfl, _, faulty, position⟩ := fails
  obtain ⟨nonempty, behind, shown⟩ := faulty.ne_nil_and_exists
  refine ⟨before, behind, by rw [shown, List.append_assoc], position, fun empty => ?_⟩
  exact absurd (String.toList_eq_nil_iff.mpr empty) nonempty

end Token

namespace Filter

variable {limits : Limits} {text : String} {error : FilterError}

/-- Where a text stands makes no difference to whether it is a filter. Its faults move with it, except
that a text which cannot be cut into tokens has its fault at one place. -/
theorem parseFragment_eq (limits : Limits) (text : String) (offset : Nat) :
    parseFragment limits offset text = (parse limits text).mapError (·.shift offset) ∧
        (∀ error, parse limits text = .error error → error.fault ≠ .invalidString) ∨
      ∃ error, Token.tokenize text = .error error ∧ parse limits text = .error error ∧
        parseFragment limits offset text = .error error := by
  by_cases fits : text.utf8ByteSize ≤ limits.maxFilterLength
  · by_cases blank : Text.isBlankText text = true
    · rw [parse, parseFragment_of_isBlankText fits blank, parseFragment_of_isBlankText fits blank]
      simp [Except.mapError, FilterError.shift]
    · rw [parse_of_fits fits blank, parseFragment_of_fits fits blank]
      -- The tokens are moved once they are there, and no fault that was found before is.
      cases tokenized : Token.tokenize text with
      | error error => exact .inr ⟨error, rfl, rfl, rfl⟩
      | ok tokens =>
        refine .inl ⟨?_, fun error failed => (Reading.exists_of_whole_eq_error failed).1⟩
        rw [Nat.add_comm offset]
        exact Reading.whole_shift _ _ tokens offset
  · have tooLong : limits.maxFilterLength < text.utf8ByteSize := Nat.not_le.mp fits
    rw [parse, parseFragment_of_tooLong tooLong, parseFragment_of_tooLong tooLong]
    simp [Except.mapError, FilterError.shift]

/-- A fragment is accepted by what it is, and not by where it stands. -/
theorem parseFragment_eq_ok_iff {offset : Nat} {filter : Filter} :
    parseFragment limits offset text = .ok filter ↔ parse limits text = .ok filter := by
  rcases parseFragment_eq limits text offset with ⟨moved, _⟩ | ⟨error, _, failed, failedThere⟩
  · rw [moved]
    cases parse limits text <;> simp [Except.mapError]
  · rw [failed, failedThere]

/-- What is shown of a rejected text stands at the place of the fault. -/
theorem standsAt_of_parse (failed : parse limits text = .error error) :
    Text.StandsAt 0 text.toList error.near error.position := by
  by_cases fits : text.utf8ByteSize ≤ limits.maxFilterLength
  · by_cases blank : Text.isBlankText text = true
    · rw [parse, parseFragment_of_isBlankText fits blank] at failed
      cases failed
      exact Text.standsAt_whole text
    · rw [parse_of_fits fits blank] at failed
      rcases bind_eq_error_iff.mp failed with lexical | ⟨tokens, tokenized, failed⟩
      · exact Token.FailsAt.standsAt (Token.tokensAt_eq_iff.mp lexical)
      · have placed := Token.IsCut.standsAt (Token.tokensAt_eq_iff.mp tokenized)
        obtain ⟨_, ⟨token, member, near, position⟩ | ⟨near, position⟩⟩ :=
          Reading.exists_of_whole_eq_error failed
        · rw [near, position]
          exact placed token member
        · have atEnd : Text.StandsAt 0 text.toList "" (0 + Text.byteLength text.toList) :=
            Text.standsAt_end text.toList
          rwa [near, position, ← Text.byteLength_toList, ← Nat.zero_add (Text.byteLength _)]
  · have tooLong : limits.maxFilterLength < text.utf8ByteSize := Nat.not_le.mp fits
    rw [parse, parseFragment_of_tooLong tooLong] at failed
    cases failed
    -- No text is too short to be shown, since an empty one is within any limit.
    have nonempty : text.toList.take 32 ≠ [] := by
      rintro empty
      have none : text = "" := by simpa using empty
      simp [none] at tooLong
    have shown : Text.StandsAt 0 (text.toList.take 32 ++ text.toList.drop 32) _ 0 :=
      Text.standsAt_front nonempty _
    rwa [List.take_append_drop] at shown

/-- **Faults are reported where they are**: the position is that of a character of the text or of its
end, and what is shown is what the text goes on with from there. Nothing is shown only at the end. -/
theorem parse_error_stands (failed : parse limits text = .error error) :
    error.position ≤ text.utf8ByteSize ∧ String.Pos.Raw.IsValid text ⟨error.position⟩ ∧
      (∃ before behind, text = before ++ error.near ++ behind ∧ before.utf8ByteSize = error.position) ∧
      (error.near = "" → error.position = text.utf8ByteSize) := by
  obtain ⟨before, behind, split, position, atEnd⟩ := standsAt_of_parse failed
  have whole : text = String.ofList before ++ error.near ++ String.ofList behind := by
    rw [← String.toList_inj]
    simpa using split
  have start : (String.ofList before).utf8ByteSize = error.position := by
    rw [← Text.byteLength_ofList, position, Nat.zero_add]
  have size : text.utf8ByteSize =
      error.position + error.near.utf8ByteSize + (String.ofList behind).utf8ByteSize := by
    rw [whole, String.utf8ByteSize_append, String.utf8ByteSize_append, start]
  refine ⟨by omega, ?_, ⟨_, _, whole, start⟩, fun empty => ?_⟩
  · rw [String.Pos.Raw.isValid_iff_exists_append]
    exact ⟨_, _, whole.trans (String.append_assoc ..), String.Pos.Raw.ext start.symm⟩
  · simp [size, empty, atEnd empty]

/-- The white space in front takes three bytes. -/
theorem parse_error_stands_behind_space :
    parse {} "\u3000type xx" = .error ⟨.unknownOperator "type", "xx", 8⟩ ∧
      8 ≤ "\u3000type xx".utf8ByteSize ∧ String.Pos.Raw.IsValid "\u3000type xx" ⟨8⟩ ∧
      ∃ before behind, "\u3000type xx" = before ++ "xx" ++ behind ∧ before.utf8ByteSize = 8 := by
  have tokenized : Token.tokenize "\u3000type xx" = .ok [⟨.word, 3, "type"⟩, ⟨.word, 8, "xx"⟩] := rfl
  have read : Reading.whole ⟨32, 10⟩ [⟨.word, 3, "type"⟩, ⟨.word, 8, "xx"⟩] =
      .error ⟨.unknownOperator "type", "xx", 8⟩ := by
    simp only [Reading.whole, List.length, Nat.reduceAdd, Nat.reduceMul, Reading.disjunction,
      Reading.conjunction, Reading.term, Reading.attributeTerm]
    rfl
  have failed : parse {} "\u3000type xx" = .error ⟨.unknownOperator "type", "xx", 8⟩ := by
    rw [parse_of_fits (by decide) (by decide), tokenized]
    exact read
  obtain ⟨bounded, boundary, stands, _⟩ := parse_error_stands failed
  exact ⟨failed, bounded, boundary, stands⟩

end Filter

end Scim
