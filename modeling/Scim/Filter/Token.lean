import Scim.Filter.Error
import Scim.Json.StringLiteral
import Scim.Text.Blank
import Scim.Text.Bytes

/-!
# Filter tokens

Filter text consists of parentheses, brackets, quoted strings, and words, which are the longest runs
of other characters: paths, keywords and numbers look alike at this level. White space separates
tokens and has no other meaning.
-/

namespace Scim

inductive Token.Kind where
  | openParen
  | closeParen
  | openBracket
  | closeBracket
  /-- A quoted string, with the text it stands for. -/
  | string (content : String)
  | word
  deriving DecidableEq

structure Token where
  kind : Token.Kind
  /-- The byte at which the token starts. -/
  position : Nat
  text : String
  deriving DecidableEq

namespace Token

/-- The kind of a token that is a single character. -/
def Kind.ofMark? : Char → Option Kind
  | '(' => some .openParen
  | ')' => some .closeParen
  | '[' => some .openBracket
  | ']' => some .closeBracket
  | _ => none

def isDelimiter (c : Char) : Bool := Text.isBlank c || (Kind.ofMark? c).isSome || c == '"'

/-- Splits the text behind an opening quote after the quote that closes it. A backslash takes the
next character with it, whatever that is. -/
def splitQuoted : List Char → Option (List Char × List Char)
  | [] => none
  | '"' :: rest => some (['"'], rest)
  | '\\' :: escaped :: rest =>
    (splitQuoted rest).map fun (body, after) => ('\\' :: escaped :: body, after)
  | c :: rest => (splitQuoted rest).map fun (body, after) => (c :: body, after)

/-- Reads the tokens of a text that starts at byte `position`. Each step consumes a character, so as
many steps as there are characters suffice. -/
def scan : Nat → Nat → List Char → Except FilterError (List Token)
  | _, _, [] => .ok []
  | 0, _, _ => .ok []
  | steps + 1, position, c :: rest =>
    if Text.isBlank c then scan steps (position + c.utf8Size) rest
    else
      match Kind.ofMark? c with
      | some kind => do
        let tokens ← scan steps (position + c.utf8Size) rest
        return ⟨kind, position, String.singleton c⟩ :: tokens
      | none =>
        if c = '"' then
          match splitQuoted rest with
          | none => .error ⟨.unterminatedString, String.ofList (c :: rest), position⟩
          | some (body, after) =>
            match Json.decodeLiteral? (c :: body) with
            | none => .error ⟨.invalidString, String.ofList (c :: body), position⟩
            | some content => do
              -- The text of the token keeps its quotes and its escapes.
              let tokens ← scan steps (position + Text.byteLength (c :: body)) after
              return ⟨.string (String.ofList content), position, String.ofList (c :: body)⟩ :: tokens
        else do
          let word := (c :: rest).takeWhile (!isDelimiter ·)
          let tokens ← scan steps (position + Text.byteLength word)
            ((c :: rest).dropWhile (!isDelimiter ·))
          return ⟨.word, position, String.ofList word⟩ :: tokens

def tokenize (text : String) : Except FilterError (List Token) :=
  scan text.toList.length 0 text.toList

/-- Whether a token is a keyword, in any ASCII case. -/
def isKeyword (token : Token) (keyword : String) : Bool :=
  token.kind == .word && Text.sameName token.text keyword

/-- The same token in a text that starts further on. -/
def shift (token : Token) (offset : Nat) : Token := { token with position := token.position + offset }

end Token

end Scim
