import Scim.Proofs.Filter.Equality
import Scim.Proofs.Text.LowerCase

/-!
# Comparing texts without regard to case

Without regard to case both texts are lowercased, each on its own. What an exact comparison finds is
then found again if the text that is looked for has the same lowercase form on its own as in its
place, and it is the capital sigma alone that can give it two forms.
-/

namespace Scim

namespace Text

variable {part text left right : List Char}

theorem occursIn_iff : occursIn part text = true ↔ part <:+: text := by
  induction text with
  | nil => simp [occursIn]
  | cons c rest ih =>
    rw [occursIn, Bool.or_eq_true, List.isPrefixOf_iff_prefix, ih, List.infix_cons_iff]

theorem order_eq_iff : order left right = .eq ↔ left = right := by
  constructor
  · intro equal
    unfold order at equal
    split at equal
    · cases equal
    · split at equal
      · assumption
      · cases equal
  · rintro rfl
    exact order_self left

end Text

namespace Operator

variable {operator : Operator} {stored literal before after : List Char}

/-- The operators that look for a text in another one: as the whole, as a part, at the front or at the
end. -/
def IsSearch (operator : Operator) : Prop := operator ∈ [.eq, .co, .sw, .ew]

instance : Decidable operator.IsSearch := inferInstanceAs (Decidable (operator ∈ _))

/-- What may stand before and after a text where an operator finds it. -/
def Allows : Operator → List Char → List Char → Prop
  | .eq, before, after => before = [] ∧ after = []
  | .sw, before, _ => before = []
  | .ew, _, after => after = []
  | _, _, _ => True

/-- What an operator says about two texts that are compared as they are. -/
def holdsForForms? (operator : Operator) (stored literal : List Char) : Option Bool :=
  match operator with
  | .co => some (Text.occursIn literal stored)
  | .sw => some (literal.isPrefixOf stored)
  | .ew => some (literal.isSuffixOf stored)
  | _ => operator.holdsFor? (Text.order stored literal)

theorem holdsForText?_exact (stored literal : String) :
    operator.holdsForText? true stored literal =
      operator.holdsForForms? stored.toList literal.toList := by
  cases operator <;> rfl

theorem holdsForText?_folded (stored literal : String) :
    operator.holdsForText? false stored literal =
      operator.holdsForForms? (Text.lowerCase stored.toList) (Text.lowerCase literal.toList) := by
  cases operator <;> rfl

/-- **A search finds a text where it stands in an allowed place.** -/
theorem holdsForForms?_iff (search : operator.IsSearch) :
    operator.holdsForForms? stored literal = some true ↔
      ∃ before after, operator.Allows before after ∧ stored = before ++ literal ++ after := by
  cases operator with
  | eq =>
    simp only [holdsForForms?, holdsFor?, Option.some.injEq, beq_iff_eq, Text.order_eq_iff, Allows]
    constructor
    · rintro rfl
      exact ⟨[], [], ⟨rfl, rfl⟩, by simp⟩
    · rintro ⟨_, _, ⟨rfl, rfl⟩, place⟩
      simpa using place
  | co =>
    simp only [holdsForForms?, Option.some.injEq, Text.occursIn_iff, Allows, true_and]
    constructor
    · rintro ⟨before, after, place⟩
      exact ⟨before, after, place.symm⟩
    · rintro ⟨before, after, place⟩
      exact ⟨before, after, place.symm⟩
  | sw =>
    simp only [holdsForForms?, Option.some.injEq, List.isPrefixOf_iff_prefix, Allows]
    constructor
    · rintro ⟨after, rfl⟩
      exact ⟨[], after, rfl, rfl⟩
    · rintro ⟨_, after, rfl, rfl⟩
      exact ⟨after, rfl⟩
  | ew =>
    simp only [holdsForForms?, Option.some.injEq, List.isSuffixOf_iff_suffix, Allows]
    constructor
    · rintro ⟨before, rfl⟩
      exact ⟨before, [], rfl, by simp⟩
    · rintro ⟨before, _, rfl, rfl⟩
      exact ⟨before, by simp⟩
  | _ => exact absurd search (by decide)

/-- Lowercasing leaves an allowed place allowed: nothing becomes nothing. -/
theorem Allows.lowercased {middle middle' : List Char} (allowed : operator.Allows before after) :
    operator.Allows (Text.lowerBetween [] before middle) (Text.lowerAfter middle' after) := by
  cases operator with
  | eq =>
    obtain ⟨rfl, rfl⟩ := allowed
    exact ⟨rfl, rfl⟩
  | sw =>
    cases allowed
    exact rfl
  | ew =>
    cases allowed
    exact rfl
  | _ => exact trivial

/-- What stands in an allowed place is found without regard to case if its sigmas agree there. -/
theorem holdsForForms?_lowerCase (search : operator.IsSearch) (allowed : operator.Allows before after)
    (agree : Text.SigmasAgree before literal after) :
    operator.holdsForForms? (Text.lowerCase (before ++ literal ++ after)) (Text.lowerCase literal) =
      some true := by
  rw [holdsForForms?_iff search, Text.lowerCase_append_append, Text.sigmasAgree_iff.mp agree]
  exact ⟨_, _, allowed.lowercased, rfl⟩

/-- Where there is one allowed place, it is found in no other way. -/
theorem sigmasAgree_of_holdsForForms? (search : operator.IsSearch) (onePlace : operator ≠ .co)
    (allowed : operator.Allows before after)
    (found : operator.holdsForForms? (Text.lowerCase (before ++ literal ++ after))
      (Text.lowerCase literal) = some true) :
    Text.SigmasAgree before literal after := by
  obtain ⟨front, back, place, same⟩ := (holdsForForms?_iff search).mp found
  rw [Text.lowerCase_append_append] at same
  -- The literal in its place and the literal on its own have forms of one length.
  have length : (Text.lowerBetween before.reverse literal after).length =
      (Text.lowerCase literal).length := by
    rw [Text.lowerCase_eq_lowerBetween]
    exact Text.length_lowerBetween
  cases operator with
  | eq =>
    obtain ⟨rfl, rfl⟩ := allowed
    exact Text.sigmasAgree_alone
  | sw =>
    obtain rfl : before = [] := allowed
    obtain rfl : front = [] := place
    exact Text.sigmasAgree_iff.mpr (List.append_inj same length).1
  | ew =>
    obtain rfl : after = [] := allowed
    obtain rfl : back = [] := place
    simp only [Text.lowerAfter, List.append_nil] at same
    exact Text.sigmasAgree_iff.mpr (List.append_inj' same length).2
  | co => exact absurd rfl onePlace
  | _ => exact absurd search (by decide)

/-- A literal that is found as a part of every text that contains it has sigmas that agree everywhere. -/
theorem sigmasAgree_of_found
    (found : ∀ before after, Operator.co.holdsForForms? (Text.lowerCase (before ++ literal ++ after))
      (Text.lowerCase literal) = some true) :
    Text.SigmasAgree before literal after := by
  have isPart (before after : List Char) : Text.lowerCase literal <:+:
      Text.lowerBetween [] before (literal ++ after) ++
        Text.lowerBetween before.reverse literal after ++
        Text.lowerAfter (literal.reverse ++ before.reverse) after := by
    rw [← Text.lowerCase_append_append, ← Text.occursIn_iff]
    exact Option.some.inj (found before after)
  refine Text.sigmasAgree_of_letter ?_ ?_
  · -- A letter after the literal takes final sigmas away, and there are no others.
    have part := isPart [] ['a']
    rw [Text.lowerAfter_letter] at part
    have same := Text.gains_of_followed.eq_of_infix part (by simp [Text.lowerBetween]) (by decide)
    exact Text.sigmasAgree_iff.mpr same
  · -- A letter before it makes final sigmas out of the others.
    have part := isPart ['a'] []
    rw [Text.lowerBetween_letter] at part
    have same := Text.gains_of_preceded.eq_of_infix part (by decide) (by simp [Text.lowerAfter])
    exact Text.sigmasAgree_iff.mpr same

theorem holdsForValue?_string (definition : Attribute)
    (textual : definition.type = .string ∨ definition.type = .reference)
    (stored literal : String) :
    operator.holdsForValue? definition (.string stored) (.string literal) =
      operator.holdsForText? definition.caseExact stored literal := by
  rcases textual with isString | isReference
  · simp [holdsForValue?, isString, Json.string?]
  · simp [holdsForValue?, isReference, Json.string?]

/-- **When a comparison without regard to case finds what an exact one finds.** An exact comparison by
`eq`, `co`, `sw` or `ew` finds a literal where it stands in a stored text in a place that the operator
allows. Without regard to case it is found there as well if every capital sigma in the literal ends a
word in that place exactly if it ends one in the literal alone, and for all of these operators but
`co` only then. So the comparison without regard to case is never the stricter one for a literal if
and only if its sigmas agree in all the places that the operator allows. -/
theorem holdsForValue?_without_caseExact (definition : Attribute) (operator : Operator)
    (literal : String) (textual : definition.type = .string ∨ definition.type = .reference)
    (search : operator.IsSearch) :
    let finds (caseExact : Bool) (stored : String) : Prop :=
      operator.holdsForValue? { definition with caseExact } (.string stored) (.string literal) = some true
    (∀ stored, finds true stored ↔ ∃ before after, operator.Allows before after ∧
        stored = String.ofList (before ++ literal.toList ++ after)) ∧
      (∀ before after, operator.Allows before after →
        let stored := String.ofList (before ++ literal.toList ++ after)
        (Text.SigmasAgree before literal.toList after → finds false stored) ∧
          (operator ≠ .co → finds false stored → Text.SigmasAgree before literal.toList after)) ∧
      ((∀ stored, finds true stored → finds false stored) ↔
        ∀ before after, operator.Allows before after → Text.SigmasAgree before literal.toList after) := by
  intro finds
  have exact_iff (stored : String) : finds true stored ↔ ∃ before after,
      operator.Allows before after ∧ stored = String.ofList (before ++ literal.toList ++ after) := by
    have inTexts (front : List Char) : stored.toList = front ↔ stored = String.ofList front := by
      rw [← String.toList_inj, String.toList_ofList]
    simp only [finds, holdsForValue?_string { definition with caseExact := true } textual,
      holdsForText?_exact, holdsForForms?_iff search, inTexts]
  have folded_iff (stored : List Char) : finds false (String.ofList stored) ↔
      operator.holdsForForms? (Text.lowerCase stored) (Text.lowerCase literal.toList) = some true := by
    simp only [finds, holdsForValue?_string { definition with caseExact := false } textual,
      holdsForText?_folded, String.toList_ofList]
  have finds_of_agree {before after : List Char} (allowed : operator.Allows before after)
      (agree : Text.SigmasAgree before literal.toList after) :
      finds false (String.ofList (before ++ literal.toList ++ after)) :=
    (folded_iff _).mpr (holdsForForms?_lowerCase search allowed agree)
  have agree_of_finds {before after : List Char} (onePlace : operator ≠ .co)
      (allowed : operator.Allows before after)
      (found : finds false (String.ofList (before ++ literal.toList ++ after))) :
      Text.SigmasAgree before literal.toList after :=
    sigmasAgree_of_holdsForForms? search onePlace allowed ((folded_iff _).mp found)
  refine ⟨exact_iff, fun before after allowed => ⟨finds_of_agree allowed,
    fun onePlace => agree_of_finds onePlace allowed⟩, ?_, ?_⟩
  · intro never before after allowed
    have found (before after) (allowed : operator.Allows before after) :
        finds false (String.ofList (before ++ literal.toList ++ after)) :=
      never _ ((exact_iff _).mpr ⟨before, after, allowed, rfl⟩)
    by_cases contains : operator = .co
    · subst contains
      exact sigmasAgree_of_found fun front back => (folded_iff _).mp (found front back trivial)
    · exact agree_of_finds contains allowed (found before after allowed)
  · intro agree stored exactly
    obtain ⟨before, after, allowed, rfl⟩ := (exact_iff stored).mp exactly
    exact finds_of_agree allowed (agree before after allowed)

/-- A word that is followed by a blank ends there as it ends on its own. -/
theorem holdsForValue?_without_caseExact_word :
    let definition := { Attribute.simple "name" .string with caseExact := false }
    IsSearch .sw ∧ Allows .sw [] [' ', 'Α'] ∧
      Text.SigmasAgree [] ['Σ', 'Α', 'Σ'] [' ', 'Α'] ∧
      holdsForValue? .sw definition (.string "ΣΑΣ Α") (.string "ΣΑΣ") = some true := by
  intro definition
  have search : IsSearch .sw := by decide
  have agree : Text.SigmasAgree [] ['Σ', 'Α', 'Σ'] [' ', 'Α'] := by decide +kernel
  have found := ((holdsForValue?_without_caseExact definition .sw "ΣΑΣ" (.inl rfl) search).2.1 []
    [' ', 'Α'] rfl).1 agree
  exact ⟨search, rfl, agree, found⟩

/-- A word is not found at the front of a longer one, where its last sigma does not end a word. -/
theorem holdsForValue?_without_caseExact_front :
    let finds (caseExact : Bool) : Option Bool :=
      holdsForValue? .sw { Attribute.simple "name" .string with caseExact }
        (.string "ΟΔΥΣΣΕΥΣ") (.string "ΟΔΥΣ")
    finds true = some true ∧ finds false = some false := by
  decide +kernel

end Operator

end Scim
