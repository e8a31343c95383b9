import Scim.Text.Blank
import Scim.Text.CaseData

/-!
# Full lowercasing

Comparison without regard to case lowercases both texts by the full rules of Unicode. Two letters
need more than a table of single letters: a capital dotted i becomes two characters, and a capital
sigma becomes a final sigma where it ends a word. A sigma ends a word if the nearest character
before it that case rules do not look through is cased, and the nearest such character after it is
not.
-/

namespace Scim.Text

def isCaseIgnorable (c : Char) : Bool := inRanges caseIgnorableRanges c

def isCased (c : Char) : Bool := inRanges casedRanges c

/-- Whether the first character that case rules do not look through is cased. -/
def meetsCased (text : List Char) : Bool :=
  match text.dropWhile isCaseIgnorable with
  | [] => false
  | c :: _ => isCased c

/-- The lowercase form of a letter that has one of a single letter; any other character itself. -/
def lowerLetter (c : Char) : Char :=
  if c.toNat < 0x80 then c.toLower
  else match lowercaseRuns.find? (CaseRun.covers · c.toNat) with
    | some run => Char.ofNat (c.toNat + run.shift).toNat
    | none => c

/-- Lowercases a text of which `before` has been read already, in reverse. -/
def lowerAfter (before : List Char) : List Char → List Char
  | [] => []
  | c :: rest =>
    if c = 'İ' then 'i' :: '\u0307' :: lowerAfter (c :: before) rest
    else if c = 'Σ' then
      (if meetsCased before && !meetsCased rest then 'ς' else 'σ') :: lowerAfter (c :: before) rest
    else lowerLetter c :: lowerAfter (c :: before) rest

def lowerCase (text : List Char) : List Char := lowerAfter [] text

end Scim.Text
