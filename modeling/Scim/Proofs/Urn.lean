import Scim.Patch.Apply
import Scim.Projection
import Scim.Proofs.Reference
import Scim.Proofs.Text.Ascii
import Scim.Proofs.View

/-!
# Referring to an extension by its URN

A reference is taken apart before it is looked up, and put together again to see whether it is the URN
of an extension. Taking it apart does not know the view. So a URN whose last part has a dot is read
as a path to a sub-attribute, unless that part starts with a digit, and is not put together again. The
key of the extension in a resource is compared as it stands, and found in any case.
-/

namespace Scim

/-! ### Splitting texts in another case -/

namespace Text

theorem splitLast_map {change : Char → Char} {mark : Char} (keeps : ∀ c, change c = mark ↔ c = mark)
    (text : List Char) :
    splitLast mark (text.map change) =
      (splitLast mark text).map fun (before, after) => (before.map change, after.map change) := by
  induction text with
  | nil => rfl
  | cons c rest ih =>
    simp only [List.map_cons, splitLast, ih]
    -- A mark in the rest comes later than the first character, whatever that is.
    cases splitLast mark rest with
    | some parts => rfl
    | none =>
      by_cases same : c = mark
      · simp [same, (keeps mark).mpr rfl]
      · simp [same, keeps]

end Text

/-! ### References to whole schemas -/

namespace Reference

/-- Whether a reference that is written like this URN stands for a whole schema. What follows the last
colon has no dot, or starts with a digit and is taken for a version. -/
def isReferable (urn : List Char) : Bool :=
  match Text.splitLast ':' urn with
  | none => false
  | some (_, last) => !last.contains '.' || last.head?.any Char.isDigit

theorem isReferable_toLower (urn : List Char) :
    isReferable (urn.map Char.toLower) = isReferable urn := by
  unfold isReferable
  rw [Text.splitLast_map (Text.toLower_eq_iff rfl)]
  cases Text.splitLast ':' urn with
  | none => rfl
  | some parts =>
    have sameDots : (parts.2.map Char.toLower).contains '.' = parts.2.contains '.' := by
      have dot := Text.toLower_eq_iff (rfl : ('.').isAlpha = false)
      simp [dot]
    have sameFirst : (parts.2.map Char.toLower).head?.any Char.isDigit = parts.2.head?.any Char.isDigit := by
      cases parts.2 <;> simp [Text.isDigit_toLower]
    simp only [Option.map_some, sameDots, sameFirst]

theorem isReferable_congr {urn other : String} (same : Text.fold urn = Text.fold other) :
    isReferable urn.toList = isReferable other.toList := by
  rw [← isReferable_toLower urn.toList, ← isReferable_toLower other.toList]
  exact congrArg isReferable same

theorem head?_isDigit_of_isName {name : List Char} (is : isName name = true) (rest : List Char) :
    (name ++ rest).head?.any Char.isDigit = false := by
  cases name with
  | nil => cases is
  | cons first others =>
    simp only [isName, Bool.or_eq_true, Bool.and_eq_true, beq_iff_eq, List.cons.injEq] at is
    rcases is with ⟨letter, _⟩ | ⟨rfl, _⟩
    · exact Text.isDigit_of_isAlpha letter
    · rfl

/-- Of a path, only a name without a dot leaves the reference to its URN. -/
theorem isSome_asSchemaUrn?_of_parseNames {urn : Option String} {path : List Char}
    {reference : Reference} (parsed : parseNames urn path = .ok reference) :
    reference.asSchemaUrn?.isSome =
      (urn.isSome && (!path.contains '.' || path.head?.any Char.isDigit)) := by
  obtain ⟨rfl, rfl, is, _⟩ := parseNames_eq_ok parsed
  have is := isName_iff.mpr is
  have noDot : '.' ∉ reference.name.toList := (notMem_of_isName is).2
  rw [names, head?_isDigit_of_isName is]
  cases urn : reference.urn <;> cases sub : reference.sub <;> simp [asSchemaUrn?, urn, sub, noDot]

theorem isSome_asSchemaUrn?_of_parse {text : String} {reference : Reference}
    (parsed : parse text = .ok reference) :
    reference.asSchemaUrn?.isSome = isReferable text.toList := by
  -- Without a colon there is no URN; what follows the last one is a version or a path.
  rcases parse_eq_ok_iff.mp parsed with ⟨noColon, parsed⟩ | ⟨urn, path, whole, last, _, _, parsed⟩
  · rw [isSome_asSchemaUrn?_of_parseNames parsed, isReferable, Text.splitLast_eq_none_iff.mpr noColon]
    rfl
  · rw [isReferable, Text.splitLast_eq_some_iff.mpr ⟨whole, last⟩]
    split at parsed
    next version =>
      cases parsed
      obtain ⟨first, rest, rfl, digit, _⟩ := isVersion_iff.mp version
      simp [asSchemaUrn?, digit]
    next =>
      rw [isSome_asSchemaUrn?_of_parseNames parsed]
      rfl

/-- A reference stands for the schema whose URN is its text, if that can be read so. -/
theorem asSchemaUrn?_of_parse {text : String} {reference : Reference}
    (parsed : parse text = .ok reference) :
    reference.asSchemaUrn? = if isReferable text.toList then some text else none := by
  have readable := isSome_asSchemaUrn?_of_parse parsed
  cases named : reference.asSchemaUrn? with
  | none =>
    rw [named] at readable
    rw [← readable]
    rfl
  | some urn =>
    rw [named] at readable
    rw [← readable, eq_of_asSchemaUrn? parsed named]
    rfl

end Reference

/-! ### References to extensions -/

namespace View

variable {view : View} {member : Member} {text : String} {reference : Reference}

/-- A reference that is not taken for a URN is looked up as the path of an attribute. -/
theorem resolve?_of_parse (parsed : Reference.parse text = .ok reference) :
    view.resolve? reference =
      match if Reference.isReferable text.toList then view.extensionFor? text else none with
      | some extension => some (.extension extension)
      | none => (view.resolveAttribute? reference).map .definition := by
  unfold resolve?
  rw [Reference.asSchemaUrn?_of_parse parsed]
  cases Reference.isReferable text.toList <;> rfl

/-- **What the URN of an extension designates**: it is the extension, in any case and wherever a
reference can stand, if the URN can be read as such. Otherwise it is read as the path of an attribute
or, where its last part has a dot, of a sub-attribute, and designates what that is bound to, if
anything. Neither in a path nor in a list does it stand for the extension then. -/
theorem resolve?_urn
    (apart : view.extensionMembers.Pairwise fun first second =>
      Text.fold first.schema.id ≠ Text.fold second.schema.id)
    (member_mem : member ∈ view.extensionMembers)
    (same : Text.fold text = Text.fold member.schema.id)
    (parsed : Reference.parse text = .ok reference) :
    view.resolve? reference =
        (if Reference.isReferable member.schema.id.toList then some (.extension member)
        else (view.resolveAttribute? reference).map .definition) ∧
      PatchPath.wholeExtension? { reference } view =
        (if Reference.isReferable member.schema.id.toList then some member.schema else none) ∧
      (.extension member.place ∈ Selected.ofReferences view [reference] ↔
        Reference.isReferable member.schema.id.toList = true) := by
  have found : view.resolve? reference =
      if Reference.isReferable member.schema.id.toList then some (.extension member)
      else (view.resolveAttribute? reference).map .definition := by
    rw [resolve?_of_parse parsed, Reference.isReferable_congr same,
      extensionFor?_of_pairwise apart member_mem same]
    cases Reference.isReferable member.schema.id.toList <;> rfl
  refine ⟨found, ?_, ?_⟩
  · unfold PatchPath.wholeExtension?
    rw [found]
    cases Reference.isReferable member.schema.id.toList with
    | true => rfl
    | false => cases view.resolveAttribute? reference <;> rfl
  · simp only [Selected.ofReferences, List.filterMap_cons, List.filterMap_nil, found]
    cases Reference.isReferable member.schema.id.toList with
    | true => simp
    | false => cases view.resolveAttribute? reference <;> simp

/-- A URN that ends in a version designates its extension in other letters too. -/
theorem resolve?_urn_version :
    let badge : Schema := { id := "urn:acme:badge:2.0", attributes := [{ name := "pin" }] }
    let view := View.ofSchemas { id := "urn:a" } [badge, { id := "urn:acme:ext.core" }]
    let reference : Reference := ⟨some "URN:acme:Badge", "2.0", none⟩
    Reference.parse "URN:acme:Badge:2.0" = .ok reference ∧
      view.resolve? reference = some (.extension ⟨.extension 0, badge⟩) ∧
      PatchPath.wholeExtension? { reference } view = some badge := by
  intro badge view reference
  have parsed : Reference.parse "URN:acme:Badge:2.0" = .ok reference := rfl
  have whole : ⟨.extension 0, badge⟩ ∈ view.extensionMembers := List.mem_cons_self
  have same : Text.fold "URN:acme:Badge:2.0" = Text.fold badge.id := by decide
  obtain ⟨designates, onPath, _⟩ := resolve?_urn (by decide) whole same parsed
  have readable : Reference.isReferable badge.id.toList = true := by decide
  exact ⟨parsed, designates.trans (if_pos readable), onPath.trans (if_pos readable)⟩

/-- A last part with a dot is read as an attribute and a sub-attribute: the URN of the extension does
not designate it, although it is the key of the extension in a resource. -/
theorem resolve?_urn_dotted :
    let core : Schema := { id := "urn:acme:ext.core", attributes := [{ name := "pin" }] }
    let view := View.ofSchemas { id := "urn:a" } [core]
    let reference : Reference := ⟨some "urn:acme", "ext", some "core"⟩
    (∀ member ∈ view.members, member.schema.validate = .ok ()) ∧
      view.extensionFor? "urn:acme:ext.core" = some ⟨.extension 0, core⟩ ∧
      Reference.parse "urn:acme:ext.core" = .ok reference ∧
      view.resolve? reference = none ∧ PatchPath.wholeExtension? { reference } view = none ∧
      Selected.ofReferences view [reference] = [] :=
  ⟨by decide, rfl, rfl, rfl, rfl, rfl⟩

end View

end Scim
