/-!
# String literals

A literal is read in two steps. The first splits its body into pieces, which settles where the
literal ends and whether it is well formed; the second joins the pieces to text, which fails when an
escaped surrogate stands alone. Text that is only passed over needs the first step and not the
second.
-/

namespace Scim.Json

/-- What a string literal is made of: characters, and the code units of `\uXXXX` escapes. -/
inductive Piece where
  | char (c : Char)
  | unit (code : Nat)
  deriving DecidableEq

def hexDigit? (c : Char) : Option Nat :=
  if '0' ≤ c ∧ c ≤ '9' then some (c.toNat - '0'.toNat)
  else if 'a' ≤ c ∧ c ≤ 'f' then some (c.toNat - 'a'.toNat + 10)
  else if 'A' ≤ c ∧ c ≤ 'F' then some (c.toNat - 'A'.toNat + 10)
  else none

def hexCode? (a b c d : Char) : Option Nat := do
  let a ← hexDigit? a
  let b ← hexDigit? b
  let c ← hexDigit? c
  let d ← hexDigit? d
  return ((a * 16 + b) * 16 + c) * 16 + d

def unescape? : Char → Option Char
  | '"' => some '"'
  | '\\' => some '\\'
  | '/' => some '/'
  | 'b' => some '\x08'
  | 'f' => some '\x0c'
  | 'n' => some '\n'
  | 'r' => some '\r'
  | 't' => some '\t'
  | _ => none

/-- The pieces up to the closing quote, and the text behind it. -/
def readPieces : List Char → Option (List Piece × List Char)
  | [] => none
  | '"' :: rest => some ([], rest)
  | '\\' :: 'u' :: a :: b :: c :: d :: rest => do
    let code ← hexCode? a b c d
    let (pieces, after) ← readPieces rest
    return (.unit code :: pieces, after)
  | '\\' :: escape :: rest => do
    let c ← unescape? escape
    let (pieces, after) ← readPieces rest
    return (.char c :: pieces, after)
  | c :: rest =>
    if c.toNat < 0x20 then none
    else do
      let (pieces, after) ← readPieces rest
      return (.char c :: pieces, after)

def isLeadingSurrogate (code : Nat) : Bool := 0xd800 ≤ code && code < 0xdc00

def isTrailingSurrogate (code : Nat) : Bool := 0xdc00 ≤ code && code < 0xe000

/-- The text of some pieces, where `pending` is a leading surrogate whose partner has to come next.
-/
def joinPieces (pending : Option Nat) : List Piece → Option (List Char)
  | [] => if pending.isSome then none else some []
  | .char c :: rest => if pending.isSome then none else (joinPieces none rest).map (c :: ·)
  | .unit code :: rest =>
    match pending with
    | some leading =>
      if isTrailingSurrogate code then
        (joinPieces none rest).map
          (Char.ofNat (0x10000 + (leading - 0xd800) * 0x400 + (code - 0xdc00)) :: ·)
      else none
    | none =>
      if isLeadingSurrogate code then joinPieces (some code) rest
      else if isTrailingSurrogate code then none
      else (joinPieces none rest).map (Char.ofNat code :: ·)

/-- Decodes a whole literal, quotes included. -/
def decodeLiteral? : List Char → Option (List Char)
  | '"' :: body =>
    match readPieces body with
    | some (pieces, []) => joinPieces none pieces
    | _ => none
  | _ => none

/-! ### Writing -/

def hexChar (digit : Nat) : Char := Nat.digitChar digit

/-- The form of one character inside a literal: quotes, backslashes and control characters are
escaped, all else stands for itself. -/
def escapeChar (c : Char) : List Char :=
  if c = '"' then ['\\', '"']
  else if c = '\\' then ['\\', '\\']
  else if c = '\x08' then ['\\', 'b']
  else if c = '\x0c' then ['\\', 'f']
  else if c = '\n' then ['\\', 'n']
  else if c = '\r' then ['\\', 'r']
  else if c = '\t' then ['\\', 't']
  else if c.toNat < 0x20 then
    ['\\', 'u', '0', '0', hexChar (c.toNat / 16), hexChar (c.toNat % 16)]
  else [c]

/-- The literal of a text. -/
def quote (text : List Char) : List Char := '"' :: text.flatMap escapeChar ++ ['"']

end Scim.Json
