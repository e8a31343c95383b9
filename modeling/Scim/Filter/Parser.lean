import Scim.Filter.Basic
import Scim.Filter.Token
import Scim.Json.NumberLiteral
import Scim.Limits

/-!
# Reading filters

    filter = and-expr *("or" and-expr)
    and-expr = term *("and" term)
    term = ["not"] "(" filter ")" / path "pr" / path operator literal / path "[" filter "]"

Words are told apart by their place: `not` is a keyword only in front of a parenthesis, and `and`,
`or` and `pr` only where an operator may stand, so all of them can also be names of attributes.
Names are not looked up in any schema.

Every level of the grammar has a function of its own, and a parenthesis or bracket leads back to the
first. No more than four calls in a row are made without consuming a token, which bounds the steps
of the whole.
-/

namespace Scim.Filter

/-- What stays the same while one filter is read. -/
structure Reading where
  maxDepth : Nat
  /-- The position to report where the filter ends too early. -/
  finish : Nat

abbrev Parsed := Except FilterError (Filter × List Token)

namespace Reading

def fail {α : Type} (fault : FilterFault) (token : Token) : Except FilterError α :=
  .error ⟨fault, token.text, token.position⟩

def failAtEnd {α : Type} (reading : Reading) (expected : Expectation) : Except FilterError α :=
  .error ⟨.endOfFilter expected, "", reading.finish⟩

def expect (reading : Reading) (kind : Token.Kind) (expected : Expectation) :
    List Token → Except FilterError (List Token)
  | [] => reading.failAtEnd expected
  | token :: rest => if token.kind = kind then .ok rest else fail (.unexpectedToken expected) token

/-- Goes one level deeper; `token` opens the level. -/
def enter (reading : Reading) (depth : Nat) (token : Token) : Except FilterError Unit :=
  if depth < reading.maxDepth then .ok () else fail (.tooDeep reading.maxDepth) token

def wordLiteral? (word : String) : Option Json :=
  if Text.sameName word "true" then some (.bool true)
  else if Text.sameName word "false" then some (.bool false)
  else if Text.sameName word "null" then some .null
  else (Json.readNumber? word.toList).map .number

def literal (reading : Reading) : List Token → Except FilterError (Json × List Token)
  | [] => reading.failAtEnd .comparisonValue
  | token :: rest =>
    match token.kind with
    | .string content => .ok (.string content, rest)
    | .word =>
      match wordLiteral? token.text with
      | some value => .ok (value, rest)
      | none => fail (.unexpectedToken .literal) token
    | _ => fail (.unexpectedToken .comparisonValue) token

def path (token : Token) : Except FilterError Reference :=
  match Reference.parse token.text with
  | .ok reference => .ok reference
  | .error fault => fail (.invalidReference fault) token

def opensParenthesis : List Token → Bool
  | token :: _ => token.kind == .openParen
  | [] => false

mutual

def disjunction (reading : Reading) : Nat → Nat → List Token → Parsed
  | 0, _, _ => reading.failAtEnd .attributePath
  | steps + 1, depth, tokens => do
    let (first, rest) ← reading.conjunction steps depth tokens
    reading.moreDisjuncts steps depth first rest

def moreDisjuncts (reading : Reading) : Nat → Nat → Filter → List Token → Parsed
  | _, _, left, [] => .ok (left, [])
  | 0, _, left, tokens => .ok (left, tokens)
  | steps + 1, depth, left, token :: rest =>
    if token.isKeyword "or" then do
      -- What has been read so far becomes the left operand.
      let (right, rest) ← reading.conjunction steps depth rest
      reading.moreDisjuncts steps depth (.logical left .or right) rest
    else .ok (left, token :: rest)

def conjunction (reading : Reading) : Nat → Nat → List Token → Parsed
  | 0, _, _ => reading.failAtEnd .attributePath
  | steps + 1, depth, tokens => do
    let (first, rest) ← reading.term steps depth tokens
    reading.moreConjuncts steps depth first rest

def moreConjuncts (reading : Reading) : Nat → Nat → Filter → List Token → Parsed
  | _, _, left, [] => .ok (left, [])
  | 0, _, left, tokens => .ok (left, tokens)
  | steps + 1, depth, left, token :: rest =>
    if token.isKeyword "and" then do
      let (right, rest) ← reading.term steps depth rest
      reading.moreConjuncts steps depth (.logical left .and right) rest
    else .ok (left, token :: rest)

def term (reading : Reading) : Nat → Nat → List Token → Parsed
  | _, _, [] => reading.failAtEnd .attributePath
  | 0, _, _ => reading.failAtEnd .attributePath
  | steps + 1, depth, token :: rest =>
    match token.kind with
    | .openParen => do
      let (inner, rest) ← reading.parenthesized steps depth token (token :: rest)
      return (.group false inner, rest)
    | .word =>
      -- Anywhere else `not` is the name of an attribute.
      if token.isKeyword "not" && opensParenthesis rest then do
        let (inner, rest) ← reading.parenthesized steps depth token rest
        return (.group true inner, rest)
      else do
        let path ← path token
        reading.attributeTerm steps depth token path rest
    | _ => fail (.unexpectedToken .attributePath) token

def parenthesized (reading : Reading) : Nat → Nat → Token → List Token → Parsed
  | 0, _, _, _ => reading.failAtEnd .attributePath
  | steps + 1, depth, opening, tokens => do
    reading.enter depth opening
    let rest ← reading.expect .openParen .openingParenthesis tokens
    let (inner, rest) ← reading.disjunction steps (depth + 1) rest
    let rest ← reading.expect .closeParen .closingParenthesis rest
    return (inner, rest)

/-- Reads what follows the path of a term. -/
def attributeTerm (reading : Reading) : Nat → Nat → Token → Reference → List Token → Parsed
  | _, _, _, _, [] => reading.failAtEnd .operatorAfterPath
  | 0, _, _, _, _ => reading.failAtEnd .operatorAfterPath
  | steps + 1, depth, pathToken, path, token :: rest =>
    match token.kind with
    | .openBracket => do
      reading.enter depth token
      let (inner, rest) ← reading.disjunction steps (depth + 1) rest
      let rest ← reading.expect .closeBracket .closingBracket rest
      return (.valuePath path inner, rest)
    | .word =>
      if token.isKeyword "pr" then .ok (.present path, rest)
      else
        match Operator.ofKeyword? token.text with
        | none => fail (.unknownOperator pathToken.text) token
        | some operator => do
          let (value, rest) ← reading.literal rest
          return (.compare path operator value, rest)
    | _ => fail (.unexpectedToken .operator) token

end

end Reading

/-- Reads a filter that stands at byte `offset` of a longer text. Faults of the grammar are placed
in that text; a faulty string literal is placed in the filter itself. -/
def parseFragment (limits : Limits) (offset : Nat) (text : String) : Except FilterError Filter := do
  if limits.maxFilterLength < text.utf8ByteSize then
    throw ⟨.filterTooLong limits.maxFilterLength, String.ofList (text.toList.take 32), offset⟩
  if Text.isBlankText text then throw ⟨.emptyFilter, text, offset⟩
  -- Only from here on are positions those of the longer text.
  let tokens ← Token.tokenize text
  let tokens := tokens.map (Token.shift · offset)
  let reading : Reading := ⟨limits.maxFilterDepth, offset + text.utf8ByteSize⟩
  let (filter, rest) ← reading.disjunction (4 * tokens.length + 4) 0 tokens
  match rest with
  | [] => return filter
  | token :: _ => Reading.fail .surplusToken token

def parse (limits : Limits) (text : String) : Except FilterError Filter :=
  parseFragment limits 0 text

end Scim.Filter
