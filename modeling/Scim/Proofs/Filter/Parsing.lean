import Scim.Proofs.Except
import Scim.Proofs.Filter.Grammar
import Scim.Proofs.Filter.Lexing

/-!
# Reading filters is deriving them

The functions that read a filter accept a row of tokens if and only if the grammar derives it, and
return the tree it derives. Soundness is one statement for each function: what it consumed derives
what it returned. Completeness goes the other way through every derivation.
-/

namespace Scim.Filter.Reading

/-! ### Soundness -/

mutual

theorem disjunction_sound {reading : Reading} {depth : Nat} (fits : depth ≤ reading.maxDepth)
    {tokens rest : List Token} {filter : Filter} (steps : Nat)
    (read : reading.disjunction steps depth tokens = .ok (filter, rest)) :
    ∃ front, tokens = front ++ rest ∧ Derives .disjunction front filter ∧
      depth + filter.depth ≤ reading.maxDepth := by
  match steps with
  | 0 => simp [disjunction, failAtEnd] at read
  | steps + 1 =>
    rw [disjunction] at read
    obtain ⟨⟨first, following⟩, readFirst, readMore⟩ := bind_eq_ok_iff.mp read
    obtain ⟨front, rfl, derived, bounded⟩ := conjunction_sound fits steps readFirst
    obtain ⟨more, rfl, whole, wholeBounded⟩ :=
      moreDisjuncts_sound fits (.ofConjunction derived) bounded steps readMore
    exact ⟨front ++ more, by simp, whole, wholeBounded⟩
termination_by structural steps

theorem moreDisjuncts_sound {reading : Reading} {depth : Nat} (fits : depth ≤ reading.maxDepth)
    {front tokens rest : List Token} {left filter : Filter} (derived : Derives .disjunction front left)
    (bounded : depth + left.depth ≤ reading.maxDepth) (steps : Nat)
    (read : reading.moreDisjuncts steps depth left tokens = .ok (filter, rest)) :
    ∃ more, tokens = more ++ rest ∧ Derives .disjunction (front ++ more) filter ∧
      depth + filter.depth ≤ reading.maxDepth := by
  have stop (stopped : (Except.ok (left, tokens) : Parsed) = .ok (filter, rest)) :
      ∃ more, tokens = more ++ rest ∧ Derives .disjunction (front ++ more) filter ∧
        depth + filter.depth ≤ reading.maxDepth := by
    cases stopped
    exact ⟨[], rfl, by simpa using derived, bounded⟩
  match tokens, steps with
  | [], _ => exact stop (by rwa [moreDisjuncts] at read)
  | _ :: _, 0 => exact stop (by rwa [moreDisjuncts] at read; simp)
  | token :: tokens, steps + 1 =>
    rw [moreDisjuncts] at read
    split at read
    next isOr =>
      -- What has been read so far becomes the left operand.
      obtain ⟨⟨right, following⟩, readRight, readMore⟩ := bind_eq_ok_iff.mp read
      obtain ⟨back, rfl, rightDerived, rightBounded⟩ := conjunction_sound fits steps readRight
      have both : depth + (Filter.logical left .or right).depth ≤ reading.maxDepth := by
        simp only [Filter.depth]
        omega
      obtain ⟨more, rfl, whole, wholeBounded⟩ :=
        moreDisjuncts_sound fits (.or derived isOr rightDerived) both steps readMore
      exact ⟨token :: back ++ more, by simp, by simpa using whole, wholeBounded⟩
    · exact stop read
termination_by structural steps

theorem conjunction_sound {reading : Reading} {depth : Nat} (fits : depth ≤ reading.maxDepth)
    {tokens rest : List Token} {filter : Filter} (steps : Nat)
    (read : reading.conjunction steps depth tokens = .ok (filter, rest)) :
    ∃ front, tokens = front ++ rest ∧ Derives .conjunction front filter ∧
      depth + filter.depth ≤ reading.maxDepth := by
  match steps with
  | 0 => simp [conjunction, failAtEnd] at read
  | steps + 1 =>
    rw [conjunction] at read
    obtain ⟨⟨first, following⟩, readFirst, readMore⟩ := bind_eq_ok_iff.mp read
    obtain ⟨front, rfl, derived, bounded⟩ := term_sound fits steps readFirst
    obtain ⟨more, rfl, whole, wholeBounded⟩ :=
      moreConjuncts_sound fits (.ofTerm derived) bounded steps readMore
    exact ⟨front ++ more, by simp, whole, wholeBounded⟩
termination_by structural steps

theorem moreConjuncts_sound {reading : Reading} {depth : Nat} (fits : depth ≤ reading.maxDepth)
    {front tokens rest : List Token} {left filter : Filter} (derived : Derives .conjunction front left)
    (bounded : depth + left.depth ≤ reading.maxDepth) (steps : Nat)
    (read : reading.moreConjuncts steps depth left tokens = .ok (filter, rest)) :
    ∃ more, tokens = more ++ rest ∧ Derives .conjunction (front ++ more) filter ∧
      depth + filter.depth ≤ reading.maxDepth := by
  have stop (stopped : (Except.ok (left, tokens) : Parsed) = .ok (filter, rest)) :
      ∃ more, tokens = more ++ rest ∧ Derives .conjunction (front ++ more) filter ∧
        depth + filter.depth ≤ reading.maxDepth := by
    cases stopped
    exact ⟨[], rfl, by simpa using derived, bounded⟩
  match tokens, steps with
  | [], _ => exact stop (by rwa [moreConjuncts] at read)
  | _ :: _, 0 => exact stop (by rwa [moreConjuncts] at read; simp)
  | token :: tokens, steps + 1 =>
    rw [moreConjuncts] at read
    split at read
    next isAnd =>
      obtain ⟨⟨right, following⟩, readRight, readMore⟩ := bind_eq_ok_iff.mp read
      obtain ⟨back, rfl, rightDerived, rightBounded⟩ := term_sound fits steps readRight
      have both : depth + (Filter.logical left .and right).depth ≤ reading.maxDepth := by
        simp only [Filter.depth]
        omega
      obtain ⟨more, rfl, whole, wholeBounded⟩ :=
        moreConjuncts_sound fits (.and derived isAnd rightDerived) both steps readMore
      exact ⟨token :: back ++ more, by simp, by simpa using whole, wholeBounded⟩
    · exact stop read
termination_by structural steps

theorem term_sound {reading : Reading} {depth : Nat} (fits : depth ≤ reading.maxDepth)
    {tokens rest : List Token} {filter : Filter} (steps : Nat)
    (read : reading.term steps depth tokens = .ok (filter, rest)) :
    ∃ front, tokens = front ++ rest ∧ Derives .term front filter ∧
      depth + filter.depth ≤ reading.maxDepth := by
  match tokens, steps with
  | [], _ => simp [term, failAtEnd] at read
  | _ :: _, 0 => simp [term, failAtEnd] at read
  | token :: tokens, steps + 1 =>
    rw [term] at read
    cases kind : token.kind with
    | openParen =>
      simp only [kind] at read
      obtain ⟨⟨inner, following⟩, readInner, done⟩ := bind_eq_ok_iff.mp read
      cases done
      obtain ⟨opening, middle, closing, split, opens, derived, closes, bounded⟩ :=
        parenthesized_sound steps readInner
      refine ⟨opening :: middle ++ [closing], by simpa using split, .group opens derived closes, ?_⟩
      simpa [Filter.depth, Nat.add_assoc, Nat.add_comm 1] using bounded
    | word =>
      simp only [kind] at read
      split at read
      next isNot =>
        obtain ⟨⟨inner, following⟩, readInner, done⟩ := bind_eq_ok_iff.mp read
        cases done
        obtain ⟨opening, middle, closing, rfl, opens, derived, closes, bounded⟩ :=
          parenthesized_sound steps readInner
        simp only [Bool.and_eq_true] at isNot
        refine ⟨token :: opening :: middle ++ [closing], by simp, .not isNot.1 opens derived closes, ?_⟩
        simpa [Filter.depth, Nat.add_assoc, Nat.add_comm 1] using bounded
      · obtain ⟨path, readPath, readTerm⟩ := bind_eq_ok_iff.mp read
        obtain ⟨front, rfl, derived, bounded⟩ :=
          attributeTerm_sound fits ((path_eq_ok_iff kind).mp readPath) steps readTerm
        exact ⟨token :: front, by simp, derived, bounded⟩
    | _ => simp [kind, fail] at read
termination_by structural steps

theorem parenthesized_sound {reading : Reading} {depth : Nat} {opening : Token}
    {tokens rest : List Token} {inner : Filter} (steps : Nat)
    (read : reading.parenthesized steps depth opening tokens = .ok (inner, rest)) :
    ∃ first middle closing, tokens = first :: middle ++ closing :: rest ∧ first.kind = .openParen ∧
      Derives .disjunction middle inner ∧ closing.kind = .closeParen ∧
      depth + 1 + inner.depth ≤ reading.maxDepth := by
  match steps with
  | 0 => simp [parenthesized, failAtEnd] at read
  | steps + 1 =>
    rw [parenthesized] at read
    obtain ⟨_, entered, read⟩ := bind_eq_ok_iff.mp read
    obtain ⟨following, opened, read⟩ := bind_eq_ok_iff.mp read
    obtain ⟨⟨found, remaining⟩, readInner, read⟩ := bind_eq_ok_iff.mp read
    obtain ⟨_, closed, done⟩ := bind_eq_ok_iff.mp read
    cases done
    obtain ⟨first, rfl, opens⟩ := expect_eq_ok_iff.mp opened
    obtain ⟨middle, rfl, derived, bounded⟩ :=
      disjunction_sound (enter_eq_ok_iff.mp entered) steps readInner
    obtain ⟨closing, rfl, closes⟩ := expect_eq_ok_iff.mp closed
    exact ⟨first, middle, closing, by simp, opens, derived, closes, bounded⟩
termination_by structural steps

theorem attributeTerm_sound {reading : Reading} {depth : Nat} (fits : depth ≤ reading.maxDepth)
    {name : Token} {path : Reference} (named : IsPath name path) {tokens rest : List Token}
    {filter : Filter} (steps : Nat)
    (read : reading.attributeTerm steps depth name path tokens = .ok (filter, rest)) :
    ∃ front, tokens = front ++ rest ∧ Derives .term (name :: front) filter ∧
      depth + filter.depth ≤ reading.maxDepth := by
  match tokens, steps with
  | [], _ => simp [attributeTerm, failAtEnd] at read
  | _ :: _, 0 => simp [attributeTerm, failAtEnd] at read
  | token :: tokens, steps + 1 =>
    rw [attributeTerm] at read
    cases kind : token.kind with
    | openBracket =>
      simp only [kind] at read
      obtain ⟨_, entered, read⟩ := bind_eq_ok_iff.mp read
      obtain ⟨⟨inner, following⟩, readInner, read⟩ := bind_eq_ok_iff.mp read
      obtain ⟨_, closed, done⟩ := bind_eq_ok_iff.mp read
      cases done
      obtain ⟨middle, rfl, derived, bounded⟩ :=
        disjunction_sound (enter_eq_ok_iff.mp entered) steps readInner
      obtain ⟨closing, rfl, closes⟩ := expect_eq_ok_iff.mp closed
      refine ⟨token :: middle ++ [closing], by simp, .valuePath named kind derived closes, ?_⟩
      simpa [Filter.depth, Nat.add_assoc, Nat.add_comm 1] using bounded
    | word =>
      simp only [kind] at read
      split at read
      next isPresent =>
        cases read
        exact ⟨[token], rfl, .present named isPresent, fits⟩
      · cases known : Operator.ofKeyword? token.text with
        | none => simp [known, fail] at read
        | some operator =>
          simp only [known] at read
          obtain ⟨⟨value, following⟩, readLiteral, done⟩ := bind_eq_ok_iff.mp read
          cases done
          obtain ⟨literal, rfl, is⟩ := literal_eq_ok_iff.mp readLiteral
          have isOperator : token.isKeyword operator.keyword = true := by
            rw [Token.isKeyword_eq_sameName kind]
            exact Operator.ofKeyword?_eq_some_iff.mp known
          exact ⟨[token, literal], rfl, .compare named isOperator is, fits⟩
    | _ => simp [kind, fail] at read
termination_by structural steps

end

/-! ### Completeness -/

/-- Whether a row of tokens goes on with a keyword. -/
def continues (keyword : String) : List Token → Bool
  | [] => false
  | token :: _ => token.isKeyword keyword

theorem continues_of_kind {keyword : String} {token : Token} {rest : List Token}
    (notWord : token.kind ≠ .word) : continues keyword (token :: rest) = false := by
  rw [continues, Bool.eq_false_iff]
  exact fun is => notWord (Token.kind_of_isKeyword is)

theorem moreDisjuncts_stop {reading : Reading} {steps depth : Nat} {left : Filter}
    {rest : List Token} (ends : continues "or" rest = false) :
    reading.moreDisjuncts steps depth left rest = .ok (left, rest) := by
  match rest, steps with
  | [], _ => rw [moreDisjuncts]
  | _ :: _, 0 => rw [moreDisjuncts]; simp
  | token :: rest, steps + 1 =>
    rw [continues] at ends
    simp [moreDisjuncts, ends]

theorem moreConjuncts_stop {reading : Reading} {steps depth : Nat} {left : Filter}
    {rest : List Token} (ends : continues "and" rest = false) :
    reading.moreConjuncts steps depth left rest = .ok (left, rest) := by
  match rest, steps with
  | [], _ => rw [moreConjuncts]
  | _ :: _, 0 => rw [moreConjuncts]; simp
  | token :: rest, steps + 1 =>
    rw [continues] at ends
    simp [moreConjuncts, ends]

/-- A derivation is followed by the functions of its level if they have the steps for it. A term
ends by itself. A chain does not, so after the tokens of a chain its loop goes on with the tree they
derive, and with steps left for what may come. -/
def IsFollowed (reading : Reading) (level : Level) (tokens : List Token) (filter : Filter) : Prop :=
  ∀ depth steps rest, depth + filter.depth ≤ reading.maxDepth →
    match level with
    | .term => 4 * tokens.length ≤ steps → reading.term steps depth (tokens ++ rest) = .ok (filter, rest)
    | .conjunction => 4 * tokens.length + 1 ≤ steps →
      ∃ left, steps ≤ left + 4 * tokens.length + 1 ∧
        reading.conjunction steps depth (tokens ++ rest) = reading.moreConjuncts left depth filter rest
    | .disjunction => continues "and" rest = false → 4 * tokens.length + 2 ≤ steps →
      ∃ left, steps ≤ left + 4 * tokens.length + 2 ∧
        reading.disjunction steps depth (tokens ++ rest) = reading.moreDisjuncts left depth filter rest

namespace IsFollowed

variable {reading : Reading} {tokens : List Token} {filter : Filter}

/-- A conjunction that does not go on is read as a whole. -/
theorem conjunction_eq (followed : IsFollowed reading .conjunction tokens filter) {depth steps : Nat}
    (rest : List Token) (bounded : depth + filter.depth ≤ reading.maxDepth)
    (enough : 4 * tokens.length + 1 ≤ steps) (ends : continues "and" rest = false) :
    reading.conjunction steps depth (tokens ++ rest) = .ok (filter, rest) := by
  obtain ⟨left, _, read⟩ := followed depth steps rest bounded enough
  rw [read, moreConjuncts_stop ends]

/-- A disjunction that does not go on is read as a whole. -/
theorem disjunction_eq (followed : IsFollowed reading .disjunction tokens filter) {depth steps : Nat}
    (rest : List Token) (bounded : depth + filter.depth ≤ reading.maxDepth)
    (enough : 4 * tokens.length + 2 ≤ steps) (endsAnd : continues "and" rest = false)
    (endsOr : continues "or" rest = false) :
    reading.disjunction steps depth (tokens ++ rest) = .ok (filter, rest) := by
  obtain ⟨left, _, read⟩ := followed depth steps rest bounded endsAnd enough
  rw [read, moreDisjuncts_stop endsOr]

/-- Parentheses are read with what they enclose. -/
theorem parenthesized_eq (followed : IsFollowed reading .disjunction tokens filter)
    {opening closing : Token} (depth steps : Nat) (rest : List Token) (token : Token)
    (bounded : depth + 1 + filter.depth ≤ reading.maxDepth)
    (enough : 4 * tokens.length + 3 ≤ steps) (opens : opening.kind = .openParen)
    (closes : closing.kind = .closeParen) :
    reading.parenthesized steps depth token (opening :: tokens ++ closing :: rest) =
      .ok (filter, rest) := by
  obtain ⟨steps, rfl⟩ : ∃ fewer, steps = fewer + 1 := ⟨steps - 1, by omega⟩
  have notWord : closing.kind ≠ .word := by simp [closes]
  have entered : reading.enter depth token = .ok () := enter_eq_ok_iff.mpr (by omega)
  have inside : reading.disjunction steps (depth + 1) (tokens ++ closing :: rest) =
      .ok (filter, closing :: rest) :=
    followed.disjunction_eq _ bounded (by omega) (continues_of_kind notWord) (continues_of_kind notWord)
  have opened : reading.expect .openParen .openingParenthesis (opening :: (tokens ++ closing :: rest)) =
      .ok (tokens ++ closing :: rest) := expect_eq_ok_iff.mpr ⟨opening, rfl, opens⟩
  have closed : reading.expect .closeParen .closingParenthesis (closing :: rest) = .ok rest :=
    expect_eq_ok_iff.mpr ⟨closing, rfl, closes⟩
  rw [parenthesized, entered, List.cons_append, opened]
  simp [bind, Except.bind, inside, closed, pure, Except.pure]

end IsFollowed

theorem term_of_isPath {reading : Reading} {depth steps : Nat} {name : Token} {path : Reference}
    {rest : List Token} (named : IsPath name path) (opens : opensParenthesis rest = false) :
    reading.term (steps + 1) depth (name :: rest) =
      reading.attributeTerm steps depth name path rest := by
  have readPath : Reading.path name = .ok path := (path_eq_ok_iff named.1).mpr named
  simp [term, named.1, opens, readPath, bind, Except.bind]

/-- Every derivation is followed. -/
theorem isFollowed_of_derives (reading : Reading) {level : Level} {tokens : List Token} {filter : Filter}
    (derived : Derives level tokens filter) : IsFollowed reading level tokens filter := by
  induction derived with
  | @ofTerm tokens filter derived followed =>
    intro depth steps rest bounded enough
    obtain ⟨steps, rfl⟩ : ∃ fewer, steps = fewer + 1 := ⟨steps - 1, by omega⟩
    have read := followed depth steps rest bounded (by omega)
    exact ⟨steps, by omega, by rw [conjunction, read]; rfl⟩
  | @ofConjunction tokens filter derived followed =>
    intro depth steps rest bounded ends enough
    obtain ⟨steps, rfl⟩ : ∃ fewer, steps = fewer + 1 := ⟨steps - 1, by omega⟩
    have read := followed.conjunction_eq rest bounded (by omega : 4 * tokens.length + 1 ≤ steps) ends
    exact ⟨steps, by omega, by rw [disjunction, read]; rfl⟩
  | @or front back keyword left right _ isOr _ followedLeft followedRight =>
    intro depth steps rest bounded ends enough
    simp only [Filter.depth] at bounded
    simp only [List.length_append, List.length_cons] at enough
    -- The operand on the left ends where the `or` stands, which is no `and`.
    have notAnd : keyword.isKeyword "and" = false := Token.isKeyword_eq_false "and" isOr (by decide)
    obtain ⟨left', few, read⟩ :=
      followedLeft depth steps (keyword :: (back ++ rest)) (by omega) notAnd (by omega)
    obtain ⟨fewer, rfl⟩ : ∃ fewer, left' = fewer + 1 := ⟨left' - 1, by omega⟩
    have readRight := followedRight.conjunction_eq rest
      (by omega : depth + right.depth ≤ reading.maxDepth) (by omega : 4 * back.length + 1 ≤ fewer) ends
    refine ⟨fewer, by simp only [List.length_append, List.length_cons]; omega, ?_⟩
    rw [List.append_assoc, List.cons_append, read, moreDisjuncts, if_pos isOr, readRight]
    rfl
  | @and front back keyword left right _ isAnd _ followedLeft followedRight =>
    intro depth steps rest bounded enough
    simp only [Filter.depth] at bounded
    simp only [List.length_append, List.length_cons] at enough
    -- The loop takes the `and` and goes on with the same steps for what may come.
    obtain ⟨left', few, read⟩ :=
      followedLeft depth steps (keyword :: (back ++ rest)) (by omega) (by omega)
    obtain ⟨fewer, rfl⟩ : ∃ fewer, left' = fewer + 1 := ⟨left' - 1, by omega⟩
    have readRight := followedRight depth fewer rest (by omega) (by omega)
    refine ⟨fewer, by simp only [List.length_append, List.length_cons]; omega, ?_⟩
    rw [List.append_assoc, List.cons_append, read, moreConjuncts, if_pos isAnd, readRight]
    rfl
  | @not keyword opening closing tokens inner isNot opens _ closes followed =>
    intro depth steps rest bounded enough
    simp only [Filter.depth] at bounded
    simp only [List.length_append, List.length_cons, List.length_nil] at enough
    obtain ⟨steps, rfl⟩ : ∃ fewer, steps = fewer + 1 := ⟨steps - 1, by omega⟩
    have read := followed.parenthesized_eq depth steps rest keyword
      (by omega) (by omega) opens closes
    simp only [List.cons_append, List.append_assoc, List.nil_append] at read ⊢
    simp [term, Token.kind_of_isKeyword isNot, isNot, opensParenthesis, opens, read, bind, Except.bind,
      pure, Except.pure]
  | @group opening closing tokens inner opens _ closes followed =>
    intro depth steps rest bounded enough
    simp only [Filter.depth] at bounded
    simp only [List.length_append, List.length_cons, List.length_nil] at enough
    obtain ⟨steps, rfl⟩ : ∃ fewer, steps = fewer + 1 := ⟨steps - 1, by omega⟩
    have read := followed.parenthesized_eq depth steps rest opening
      (by omega) (by omega) opens closes
    simp only [List.cons_append, List.append_assoc, List.nil_append] at read ⊢
    simp [term, opens, read, bind, Except.bind, pure, Except.pure]
  | @present name keyword path named isPresent =>
    intro depth steps rest bounded enough
    simp only [List.length_cons] at enough
    obtain ⟨steps, rfl⟩ : ∃ fewer, steps = fewer + 2 := ⟨steps - 2, by omega⟩
    have word := Token.kind_of_isKeyword isPresent
    rw [List.cons_append, term_of_isPath named (by simp [opensParenthesis, word])]
    simp [attributeTerm, word, isPresent]
  | @compare name keyword literal path operator value named isOperator is =>
    intro depth steps rest bounded enough
    simp only [List.length_cons] at enough
    obtain ⟨steps, rfl⟩ : ∃ fewer, steps = fewer + 2 := ⟨steps - 2, by omega⟩
    have word := Token.kind_of_isKeyword isOperator
    have known : Operator.ofKeyword? keyword.text = some operator := by
      rwa [Operator.ofKeyword?_eq_some_iff, ← Token.isKeyword_eq_sameName word]
    have readLiteral : reading.literal (literal :: rest) = .ok (value, rest) :=
      literal_eq_ok_iff.mpr ⟨literal, rfl, is⟩
    rw [List.cons_append, term_of_isPath named (by simp [opensParenthesis, word])]
    simp [attributeTerm, word, Operator.isKeyword_pr_eq_false isOperator, known, readLiteral, bind,
      Except.bind, pure, Except.pure]
  | @valuePath name opening closing tokens path inner named opens _ closes followed =>
    intro depth steps rest bounded enough
    simp only [Filter.depth] at bounded
    simp only [List.length_append, List.length_cons, List.length_nil] at enough
    obtain ⟨steps, rfl⟩ : ∃ fewer, steps = fewer + 2 := ⟨steps - 2, by omega⟩
    -- What is enclosed ends at the bracket, which is no keyword that goes on with a chain.
    have notWord : closing.kind ≠ .word := by simp [closes]
    have entered : reading.enter depth opening = .ok () := enter_eq_ok_iff.mpr (by omega)
    have inside : reading.disjunction steps (depth + 1) (tokens ++ closing :: rest) =
        .ok (inner, closing :: rest) :=
      followed.disjunction_eq _ (by omega) (by omega) (continues_of_kind notWord)
        (continues_of_kind notWord)
    have closed : reading.expect .closeBracket .closingBracket (closing :: rest) = .ok rest :=
      expect_eq_ok_iff.mpr ⟨closing, rfl, closes⟩
    simp only [List.cons_append, List.append_assoc, List.nil_append]
    rw [term_of_isPath named (by simp [opensParenthesis, opens])]
    simp [attributeTerm, opens, entered, inside, closed, bind, Except.bind, pure, Except.pure]

end Scim.Filter.Reading

namespace Scim.Filter

/-! ### Whole filters -/

/-- A row of tokens is read to its end if and only if the grammar derives it and it is not nested
too deeply. -/
theorem disjunction_eq_ok_iff {reading : Reading} {tokens : List Token} {filter : Filter} {steps : Nat}
    (enough : 4 * tokens.length + 2 ≤ steps) :
    reading.disjunction steps 0 tokens = .ok (filter, []) ↔
      Derives .disjunction tokens filter ∧ filter.depth ≤ reading.maxDepth := by
  constructor
  · intro read
    -- No tokens are left over, so what was consumed is all of them.
    obtain ⟨front, rfl, derived, bounded⟩ := Reading.disjunction_sound (Nat.zero_le _) steps read
    exact ⟨by simpa using derived, by simpa using bounded⟩
  · rintro ⟨derived, bounded⟩
    have followed := Reading.isFollowed_of_derives reading derived
    simpa using followed.disjunction_eq [] (by omega) enough rfl rfl

/-- A row of tokens has one tree. -/
theorem Derives.unique {tokens : List Token} {filter other : Filter}
    (derived : Derives .disjunction tokens filter) (derivedOther : Derives .disjunction tokens other) :
    filter = other := by
  -- Reading is a function, and with room for both trees it returns either.
  let reading : Reading := ⟨max filter.depth other.depth, 0⟩
  have read : reading.disjunction (4 * tokens.length + 2) 0 tokens = .ok (filter, []) :=
    (disjunction_eq_ok_iff (Nat.le_refl _)).mpr ⟨derived, Nat.le_max_left _ _⟩
  have readOther : reading.disjunction (4 * tokens.length + 2) 0 tokens = .ok (other, []) :=
    (disjunction_eq_ok_iff (Nat.le_refl _)).mpr ⟨derivedOther, Nat.le_max_right _ _⟩
  rw [read] at readOther
  cases readOther
  rfl

/-- Reads a row of tokens as a filter. None of them may be left over. -/
def Reading.whole (reading : Reading) (tokens : List Token) : Except FilterError Filter := do
  let (filter, rest) ← reading.disjunction (4 * tokens.length + 4) 0 tokens
  match rest with
  | [] => return filter
  | token :: _ => fail .surplusToken token

theorem whole_eq_ok_iff {reading : Reading} {tokens : List Token} {filter : Filter} :
    reading.whole tokens = .ok filter ↔
      Derives .disjunction tokens filter ∧ filter.depth ≤ reading.maxDepth := by
  rw [← disjunction_eq_ok_iff (Nat.add_le_add_left (by decide : 2 ≤ 4) _), Reading.whole, bind_eq_ok_iff]
  constructor
  · rintro ⟨⟨found, rest⟩, read, done⟩
    cases rest with
    | nil =>
      cases done
      exact read
    | cons token rest => cases done
  · intro read
    exact ⟨(filter, []), read, rfl⟩

section Fragment

variable {limits : Limits} {offset : Nat} {text : String}

theorem parseFragment_of_tooLong (tooLong : limits.maxFilterLength < text.utf8ByteSize) :
    parseFragment limits offset text =
      .error ⟨.filterTooLong limits.maxFilterLength, String.ofList (text.toList.take 32), offset⟩ := by
  rw [parseFragment, if_pos tooLong]
  rfl

theorem parseFragment_of_isBlankText (fits : text.utf8ByteSize ≤ limits.maxFilterLength)
    (blank : Text.isBlankText text = true) :
    parseFragment limits offset text = .error ⟨.emptyFilter, text, offset⟩ := by
  rw [parseFragment, if_neg (Nat.not_lt.mpr fits), if_pos blank]
  rfl

/-- A fragment is cut into tokens, which are read where the fragment stands. -/
theorem parseFragment_of_fits (fits : text.utf8ByteSize ≤ limits.maxFilterLength)
    (notBlank : ¬ Text.isBlankText text = true) :
    parseFragment limits offset text =
      Token.tokenize text >>= fun tokens =>
        Reading.whole ⟨limits.maxFilterDepth, offset + text.utf8ByteSize⟩
          (tokens.map (Token.shift · offset)) := by
  rw [parseFragment, if_neg (Nat.not_lt.mpr fits), if_neg notBlank]
  rfl

theorem map_shift_zero (tokens : List Token) : tokens.map (Token.shift · 0) = tokens :=
  List.map_id' tokens

/-- A whole text is a fragment at its own front. -/
theorem parse_of_fits (fits : text.utf8ByteSize ≤ limits.maxFilterLength)
    (notBlank : ¬ Text.isBlankText text = true) :
    parse limits text =
      Token.tokenize text >>= Reading.whole ⟨limits.maxFilterDepth, text.utf8ByteSize⟩ := by
  simp only [parse, parseFragment_of_fits fits notBlank, map_shift_zero, Nat.zero_add]

/-- A text is accepted by its length, its tokens and its nesting. -/
theorem parse_eq_ok_iff {filter : Filter} :
    parse limits text = .ok filter ↔
      text.utf8ByteSize ≤ limits.maxFilterLength ∧ ∃ tokens, Token.tokenize text = .ok tokens ∧
        Derives .disjunction tokens filter ∧ filter.depth ≤ limits.maxFilterDepth := by
  by_cases fits : text.utf8ByteSize ≤ limits.maxFilterLength
  · by_cases blank : Text.isBlankText text = true
    · -- A blank text has no tokens, and no tokens are no filter.
      rw [parse, parseFragment_of_isBlankText fits blank, Token.tokenize_of_isBlankText blank]
      simp only [reduceCtorEq, false_iff, Except.ok.injEq, exists_eq_left', not_and]
      exact fun _ derived => absurd rfl derived.ne_nil
    · simp only [parse_of_fits fits blank, bind_eq_ok_iff, whole_eq_ok_iff, fits, true_and]
  · rw [parse, parseFragment_of_tooLong (Nat.not_le.mp fits)]
    simp [fits]

end Fragment

/-- The limits aside, a text is accepted for what it is: raising them loses no filter and changes no
tree. -/
theorem parse_mono {limits wider : Limits} {text : String} {filter : Filter}
    (longer : limits.maxFilterLength ≤ wider.maxFilterLength)
    (deeper : limits.maxFilterDepth ≤ wider.maxFilterDepth) (read : parse limits text = .ok filter) :
    parse wider text = .ok filter := by
  obtain ⟨fits, tokens, tokenized, derived, bounded⟩ := parse_eq_ok_iff.mp read
  exact parse_eq_ok_iff.mpr
    ⟨Nat.le_trans fits longer, tokens, tokenized, derived, Nat.le_trans bounded deeper⟩

/-- **Exactness of reading**: a text is read as a filter if and only if it is not too long, consists
of tokens, and the grammar derives these tokens with that filter as their tree, nested no deeper
than allowed. The tree is the only one the grammar has for the tokens, and raising a limit never
changes it. -/
theorem parse_iff_derives (limits : Limits) (text : String) :
    (∀ filter, parse limits text = .ok filter ↔
      text.utf8ByteSize ≤ limits.maxFilterLength ∧ ∃ tokens, Token.tokenize text = .ok tokens ∧
        Derives .disjunction tokens filter ∧ filter.depth ≤ limits.maxFilterDepth) ∧
    (∀ tokens filter other, Derives .disjunction tokens filter → Derives .disjunction tokens other →
      filter = other) ∧
    ∀ wider filter, limits.maxFilterLength ≤ wider.maxFilterLength →
      limits.maxFilterDepth ≤ wider.maxFilterDepth → parse limits text = .ok filter →
      parse wider text = .ok filter :=
  ⟨fun _ => parse_eq_ok_iff, fun _ _ _ => Derives.unique, fun _ _ => parse_mono⟩

/-- Names may look like keywords, and keywords may be written in capitals. -/
theorem parse_keyword_names :
    let filter : Filter := .logical
      (.group true (.valuePath ⟨none, "not", none⟩ (.present ⟨none, "or", none⟩)))
      .or (.compare ⟨none, "and", some "pr"⟩ .eq (.bool true))
    parse { maxFilterDepth := 2 } "NOT (not[or pr]) OR and.pr EQ True" = .ok filter ∧
      parse { maxFilterDepth := 9 } "NOT (not[or pr]) OR and.pr EQ True" = .ok filter := by
  intro filter
  have tokenized : Token.tokenize "NOT (not[or pr]) OR and.pr EQ True" =
      .ok [⟨.word, 0, "NOT"⟩, ⟨.openParen, 4, "("⟩, ⟨.word, 5, "not"⟩, ⟨.openBracket, 8, "["⟩,
        ⟨.word, 9, "or"⟩, ⟨.word, 12, "pr"⟩, ⟨.closeBracket, 14, "]"⟩, ⟨.closeParen, 15, ")"⟩,
        ⟨.word, 17, "OR"⟩, ⟨.word, 20, "and.pr"⟩, ⟨.word, 27, "EQ"⟩, ⟨.word, 30, "True"⟩] := rfl
  have inside : Derives .disjunction [⟨.word, 9, "or"⟩, ⟨.word, 12, "pr"⟩]
      (.present ⟨none, "or", none⟩) :=
    .ofConjunction (.ofTerm (.present ⟨rfl, rfl⟩ rfl))
  have element : Derives .disjunction
      (⟨.word, 5, "not"⟩ :: ⟨.openBracket, 8, "["⟩ :: [⟨.word, 9, "or"⟩, ⟨.word, 12, "pr"⟩] ++
        [⟨.closeBracket, 14, "]"⟩])
      (.valuePath ⟨none, "not", none⟩ (.present ⟨none, "or", none⟩)) :=
    .ofConjunction (.ofTerm (.valuePath ⟨rfl, rfl⟩ rfl inside rfl))
  have negation : Derives .term
      (⟨.word, 0, "NOT"⟩ :: ⟨.openParen, 4, "("⟩ :: _ ++ [⟨.closeParen, 15, ")"⟩]) (.group true _) :=
    .not rfl rfl element rfl
  have comparison : Derives .term [⟨.word, 20, "and.pr"⟩, ⟨.word, 27, "EQ"⟩, ⟨.word, 30, "True"⟩]
      (.compare ⟨none, "and", some "pr"⟩ .eq (.bool true)) :=
    .compare ⟨rfl, rfl⟩ rfl (.true rfl)
  have derived : Derives .disjunction (_ ++ ⟨.word, 17, "OR"⟩ :: _) filter :=
    .or (.ofConjunction (.ofTerm negation)) rfl (.ofTerm comparison)
  have read := ((parse_iff_derives { maxFilterDepth := 2 } "NOT (not[or pr]) OR and.pr EQ True").1
    filter).mpr ⟨by decide, _, tokenized, derived, by decide⟩
  exact ⟨read,
    (parse_iff_derives { maxFilterDepth := 2 } _).2.2 _ filter (Nat.le_refl _) (by decide) read⟩

end Scim.Filter
