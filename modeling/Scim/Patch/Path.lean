import Scim.Filter.Parser
import Scim.Filter.Printer

/-!
# Patch paths

A patch path names an attribute or a sub-attribute, or selects elements of an attribute by a value
filter in brackets, possibly down to one of their sub-attributes: `members[value eq
"2819c223"].display`.

The filter ends at the bracket that closes the first one. Brackets inside string literals do not
count, so the matching bracket is found before the filter is read.
-/

namespace Scim

structure PatchPath where
  /-- The attribute; without a value filter it may include a sub-attribute. -/
  reference : Reference
  filter : Option Filter := none
  sub : Option String := none

namespace PatchPath

def same (left right : PatchPath) : Bool :=
  left.reference.same right.reference &&
    (match left.filter, right.filter with
      | some f, some g => f.same g
      | none, none => true
      | _, _ => false) &&
    left.sub == right.sub

def text (path : PatchPath) : String :=
  path.reference.text ++
  (match path.filter with
    | some filter => "[" ++ filter.text ++ "]"
    | none => "") ++
  (match path.sub with
    | some sub => "." ++ sub
    | none => "")

/-! ### Reading -/

/-- Where a character stands with regard to string literals. -/
inductive Quotation where
  | outside
  | inside
  | afterBackslash

/-- Splits the text behind an opening bracket at the bracket that closes it, where `depth` further
brackets are open. -/
def splitBracket (quotation : Quotation) (depth : Nat) : List Char → Option (List Char × List Char)
  | [] => none
  | c :: rest =>
    match quotation with
    | .afterBackslash => keep c (splitBracket .inside depth rest)
    | .inside =>
      let next := if c = '\\' then Quotation.afterBackslash else if c = '"' then .outside else .inside
      keep c (splitBracket next depth rest)
    | .outside =>
      if c = '"' then keep c (splitBracket .inside depth rest)
      else if c = '[' then keep c (splitBracket .outside (depth + 1) rest)
      else if c = ']' then
        match depth with
        | 0 => some ([], rest)
        | depth + 1 => keep c (splitBracket .outside depth rest)
      else keep c (splitBracket .outside depth rest)
where
  keep (c : Char) (split : Option (List Char × List Char)) : Option (List Char × List Char) :=
    split.map fun (before, after) => (c :: before, after)

/-- Reads a part of a path as a reference; an empty part is reported by the whole path. -/
def parseReference (part : List Char) (whole : String) (position : Nat) : Except FilterError Reference :=
  match Reference.parse (String.ofList part) with
  | .ok reference => .ok reference
  | .error fault =>
    .error ⟨.invalidReference fault, if part.isEmpty then whole else String.ofList part, position⟩

/-- Reads what follows a value filter and ends at byte `position` of the whole path. -/
def parseSub (rest : List Char) (whole : String) (position : Nat) : Except FilterError (Option String) :=
  match rest with
  | [] => .ok none
  | '.' :: name => do
    let sub ← parseReference name whole (position + 1)
    if sub.urn.isSome || sub.sub.isSome then
      throw ⟨.notSubAttribute, String.ofList rest, position⟩
    return some sub.name
  | _ => .error ⟨.trailingText, String.ofList rest, position⟩

def parse (limits : Limits) (text : String) : Except FilterError PatchPath := do
  if limits.maxFilterLength < text.utf8ByteSize then
    throw ⟨.pathTooLong limits.maxFilterLength, String.ofList (text.toList.take 32), 0⟩
  match Text.splitFirst '[' text.toList with
  | none => return { reference := ← parseReference text.toList text 0 }
  | some (before, after) =>
    let reference ← parseReference before text 0
    if reference.sub.isSome then throw ⟨.filterAfterSubAttribute, String.ofList before, 0⟩
    let opening := Text.byteLength before
    match splitBracket .outside 0 after with
    | none => throw ⟨.missingBracket, String.ofList ('[' :: after), opening⟩
    | some (inside, rest) =>
      let filter ← Filter.parseFragment limits (opening + 1) (String.ofList inside)
      let sub ← parseSub rest text (opening + 1 + Text.byteLength inside + 1)
      return { reference, filter := some filter, sub }

end PatchPath

end Scim
