import Scim.Filter.Parser
import Scim.Proofs.Json.NumberLiteral
import Scim.Proofs.Text.Ascii

/-!
# The grammar of filters

`Derives` says which rows of tokens are filters, and of which tree, without saying how they are
read:

    disjunction = conjunction / disjunction "or" conjunction
    conjunction = term / conjunction "and" term
    term = "not" "(" disjunction ")" / "(" disjunction ")" / path "pr" / path operator literal /
           path "[" disjunction "]"

The recursion on the left is what makes chains of one connective group to the left, and the order of
the levels is what makes `and` bind tighter than `or`. Every written parenthesis is a node of the
tree.
-/

namespace Scim

/-! ### Keywords -/

namespace Token

theorem kind_of_isKeyword {token : Token} {keyword : String} (is : token.isKeyword keyword = true) :
    token.kind = .word := by
  simp only [isKeyword, Bool.and_eq_true, beq_iff_eq] at is
  exact is.1

theorem isKeyword_eq_sameName {token : Token} (word : token.kind = .word) (keyword : String) :
    token.isKeyword keyword = Text.sameName token.text keyword := by
  simp [isKeyword, word]

/-- A token is one keyword only. -/
theorem isKeyword_eq_false {token : Token} {keyword : String} (other : String)
    (is : token.isKeyword keyword = true) (different : Text.fold keyword ≠ Text.fold other) :
    token.isKeyword other = false := by
  rw [isKeyword_eq_sameName (kind_of_isKeyword is), Text.sameName_iff] at is
  simp only [isKeyword, Bool.and_eq_false_iff, Text.sameName, is]
  right
  simpa using different

end Token

namespace Operator

theorem mem_all (operator : Operator) : operator ∈ all := by
  cases operator <;> decide

theorem keyword_injective {operator other : Operator}
    (same : Text.fold operator.keyword = Text.fold other.keyword) : operator = other := by
  cases operator <;> cases other <;> first | rfl | exact absurd same (by decide)

theorem ofKeyword?_eq_some_iff {word : String} {operator : Operator} :
    ofKeyword? word = some operator ↔ Text.sameName word operator.keyword = true := by
  rw [Text.sameName_comm]
  have found_same {other : Operator} (found : ofKeyword? word = some other) :
      Text.sameName other.keyword word = true :=
    List.find?_some (p := fun operator : Operator => Text.sameName operator.keyword word) found
  constructor
  · exact found_same
  · intro same
    cases found : ofKeyword? word with
    | none => exact absurd same (List.find?_eq_none.mp found operator (mem_all operator))
    | some other =>
      have fold : Text.fold other.keyword = Text.fold operator.keyword :=
        (Text.sameName_iff.mp (found_same found)).trans (Text.sameName_iff.mp same).symm
      rw [keyword_injective fold]

/-- `pr` is not among the operators. -/
theorem isKeyword_pr_eq_false {token : Token} {operator : Operator}
    (is : token.isKeyword operator.keyword = true) : token.isKeyword "pr" = false :=
  Token.isKeyword_eq_false _ is (by cases operator <;> decide)

end Operator

end Scim

namespace Scim.Filter

/-! ### Derivations -/

/-- The levels of the grammar. -/
inductive Level where
  | disjunction
  | conjunction
  | term

/-- A word that names an attribute. -/
def IsPath (token : Token) (path : Reference) : Prop :=
  token.kind = .word ∧ Reference.parse token.text = .ok path

/-- The value that a token stands for where a literal is expected. -/
inductive IsLiteral : Token → Json → Prop
  | string {token : Token} {content : String} :
    token.kind = .string content → IsLiteral token (.string content)
  | true {token : Token} : token.isKeyword "true" = true → IsLiteral token (.bool true)
  | false {token : Token} : token.isKeyword "false" = true → IsLiteral token (.bool false)
  | null {token : Token} : token.isKeyword "null" = true → IsLiteral token .null
  | number {token : Token} {value : Number} :
    token.kind = .word → Json.readNumber? token.text.toList = some value →
      IsLiteral token (.number value)

inductive Derives : Level → List Token → Filter → Prop
  | ofTerm {tokens : List Token} {filter : Filter} :
    Derives .term tokens filter → Derives .conjunction tokens filter
  | ofConjunction {tokens : List Token} {filter : Filter} :
    Derives .conjunction tokens filter → Derives .disjunction tokens filter
  | or {front back : List Token} {keyword : Token} {left right : Filter} :
    Derives .disjunction front left → keyword.isKeyword "or" = true →
      Derives .conjunction back right →
      Derives .disjunction (front ++ keyword :: back) (.logical left .or right)
  | and {front back : List Token} {keyword : Token} {left right : Filter} :
    Derives .conjunction front left → keyword.isKeyword "and" = true → Derives .term back right →
      Derives .conjunction (front ++ keyword :: back) (.logical left .and right)
  | not {keyword opening closing : Token} {tokens : List Token} {inner : Filter} :
    keyword.isKeyword "not" = true → opening.kind = .openParen → Derives .disjunction tokens inner →
      closing.kind = .closeParen →
      Derives .term (keyword :: opening :: tokens ++ [closing]) (.group true inner)
  | group {opening closing : Token} {tokens : List Token} {inner : Filter} :
    opening.kind = .openParen → Derives .disjunction tokens inner → closing.kind = .closeParen →
      Derives .term (opening :: tokens ++ [closing]) (.group false inner)
  | present {name keyword : Token} {path : Reference} :
    IsPath name path → keyword.isKeyword "pr" = true → Derives .term [name, keyword] (.present path)
  | compare {name keyword literal : Token} {path : Reference} {operator : Operator} {value : Json} :
    IsPath name path → keyword.isKeyword operator.keyword = true → IsLiteral literal value →
      Derives .term [name, keyword, literal] (.compare path operator value)
  | valuePath {name opening closing : Token} {tokens : List Token} {path : Reference} {inner : Filter} :
    IsPath name path → opening.kind = .openBracket → Derives .disjunction tokens inner →
      closing.kind = .closeBracket →
      Derives .term (name :: opening :: tokens ++ [closing]) (.valuePath path inner)

/-- No filter is written with nothing. -/
theorem Derives.ne_nil {level : Level} {tokens : List Token} {filter : Filter}
    (derived : Derives level tokens filter) : tokens ≠ [] := by
  induction derived <;> simp_all

/-! ### Literals -/

/-- A number is not the word `true`, `false` or `null`: their first letters cannot stand in it. -/
theorem toLower_of_isNumberChar {c : Char} (is : Json.isNumberChar c = true) :
    c.toLower ≠ 't' ∧ c.toLower ≠ 'f' ∧ c.toLower ≠ 'n' := by
  simp only [Json.isNumberChar, Bool.or_eq_true, List.contains_iff_mem, List.mem_cons,
    List.not_mem_nil, or_false] at is
  rcases is with digit | rfl | rfl | rfl | rfl | rfl
  · rw [Text.toLower_of_isDigit digit]
    refine ⟨?_, ?_, ?_⟩ <;>
    · rintro rfl
      exact absurd digit (by decide)
  all_goals decide

/-- The text of a number is no keyword that is a literal. -/
theorem isKeyword_of_readNumber? {token : Token} {value : Number}
    (read : Json.readNumber? token.text.toList = some value) :
    token.isKeyword "true" = false ∧ token.isKeyword "false" = false ∧
      token.isKeyword "null" = false := by
  have chars := Json.isNumberChar_of_readNumber? read
  have letters : ∀ c ∈ Text.fold token.text, c ≠ 't' ∧ c ≠ 'f' ∧ c ≠ 'n' := by
    intro c member
    obtain ⟨original, inText, rfl⟩ := List.mem_map.mp member
    exact toLower_of_isNumberChar (chars original inText)
  -- A letter that the keyword has and the number has not tells them apart.
  have different (keyword : String) (c : Char) (starts : c ∈ Text.fold keyword)
      (absent : c ∉ Text.fold token.text) : token.isKeyword keyword = false := by
    simp only [Token.isKeyword, Bool.and_eq_false_iff]
    right
    rw [Bool.eq_false_iff, ne_eq, Text.sameName_iff]
    exact fun same => absent (same ▸ starts)
  refine ⟨different _ 't' (by decide) fun member => (letters 't' member).1 rfl,
    different _ 'f' (by decide) fun member => (letters 'f' member).2.1 rfl,
    different _ 'n' (by decide) fun member => (letters 'n' member).2.2 rfl⟩

theorem wordLiteral?_eq_some_iff {token : Token} {value : Json} (word : token.kind = .word) :
    Reading.wordLiteral? token.text = some value ↔ IsLiteral token value := by
  -- The keywords are tried first, and the number only if the word is none of them.
  unfold Reading.wordLiteral?
  simp only [← Token.isKeyword_eq_sameName word]
  constructor
  · intro read
    split at read
    next is =>
      cases read
      exact .true is
    · split at read
      next is =>
        cases read
        exact .false is
      · split at read
        next is =>
          cases read
          exact .null is
        · obtain ⟨number, spelt, rfl⟩ := Option.map_eq_some_iff.mp read
          exact .number word spelt
  · intro is
    cases is with
    | string quoted =>
      rw [word] at quoted
      cases quoted
    | true is => simp [is]
    | false is => simp [is, Token.isKeyword_eq_false "true" is (by decide)]
    | null is =>
      simp [is, Token.isKeyword_eq_false "true" is (by decide),
        Token.isKeyword_eq_false "false" is (by decide)]
    | number _ spelt =>
      obtain ⟨notTrue, notFalse, notNull⟩ := isKeyword_of_readNumber? spelt
      simp [notTrue, notFalse, notNull, spelt]

theorem literal_eq_ok_iff {reading : Reading} {tokens rest : List Token} {value : Json} :
    reading.literal tokens = .ok (value, rest) ↔
      ∃ token, tokens = token :: rest ∧ IsLiteral token value := by
  cases tokens with
  | nil => simp [Reading.literal, Reading.failAtEnd]
  | cons token following =>
    constructor
    · intro read
      rw [Reading.literal] at read
      cases kind : token.kind with
      | string content =>
        simp only [kind, Except.ok.injEq, Prod.mk.injEq] at read
        obtain ⟨rfl, rfl⟩ := read
        exact ⟨token, rfl, .string kind⟩
      | word =>
        cases spelt : Reading.wordLiteral? token.text with
        | none => simp [kind, spelt, Reading.fail] at read
        | some found =>
          simp only [kind, spelt, Except.ok.injEq, Prod.mk.injEq] at read
          obtain ⟨rfl, rfl⟩ := read
          exact ⟨token, rfl, (wordLiteral?_eq_some_iff kind).mp spelt⟩
      | _ => simp [kind, Reading.fail] at read
    · rintro ⟨_, equal, is⟩
      obtain ⟨rfl, rfl⟩ := List.cons.inj equal
      have isWord (word : token.kind = .word) :
          reading.literal (token :: following) = .ok (value, following) := by
        simp only [Reading.literal, word, (wordLiteral?_eq_some_iff word).mpr is]
      cases is with
      | string quoted => simp only [Reading.literal, quoted]
      | true is => exact isWord (Token.kind_of_isKeyword is)
      | false is => exact isWord (Token.kind_of_isKeyword is)
      | null is => exact isWord (Token.kind_of_isKeyword is)
      | number word _ => exact isWord word

/-! ### Single tokens -/

theorem path_eq_ok_iff {token : Token} {path : Reference} (word : token.kind = .word) :
    Reading.path token = .ok path ↔ IsPath token path := by
  unfold Reading.path IsPath
  cases parsed : Reference.parse token.text with
  | ok reference => simp [word]
  | error fault => simp [Reading.fail]

theorem expect_eq_ok_iff {reading : Reading} {kind : Token.Kind} {expected : Expectation}
    {tokens rest : List Token} :
    reading.expect kind expected tokens = .ok rest ↔
      ∃ token, tokens = token :: rest ∧ token.kind = kind := by
  cases tokens with
  | nil => simp [Reading.expect, Reading.failAtEnd]
  | cons token following =>
    rw [Reading.expect]
    split
    next same =>
      rw [Except.ok.injEq]
      constructor
      · rintro rfl
        exact ⟨token, rfl, same⟩
      · rintro ⟨_, equal, _⟩
        exact (List.cons.inj equal).2
    next different =>
      simp only [Reading.fail, reduceCtorEq, false_iff]
      rintro ⟨_, equal, same⟩
      exact different ((List.cons.inj equal).1 ▸ same)

theorem enter_eq_ok_iff {reading : Reading} {depth : Nat} {token : Token} {done : Unit} :
    reading.enter depth token = .ok done ↔ depth < reading.maxDepth := by
  by_cases fits : depth < reading.maxDepth <;> simp [Reading.enter, fits, Reading.fail]

end Scim.Filter
