import Scim.Proofs.Patch.Commits
import Scim.Proofs.Patch.Container
import Scim.Proofs.Patch.Steps
import Scim.Proofs.Resource.Spellings
import Scim.Proofs.View

/-!
# Operations in another order

An operation on an attribute of the base looks at nothing in the resource but the entries under the
name of the attribute, and changes nothing else. So operations on different attributes of the base can
be carried out in any order: if they succeed in one, they succeed in all others and lead to the same
resource. This holds of any resource, also of one in which names stand under several spellings.
-/

namespace Scim

open Object

variable {name other : String} {container : Object}

/-! ### Writes look at one name only -/

section Writes

variable (sorted : container.Sorted)

include sorted

theorem under_addToCollection (name : String) (value : Json) :
    under (addToCollection name value container) name = addToCollection name value (container.under name) := by
  simp only [addToCollection, slot?_under]
  split
  · exact under_removeAttribute container name
  · rw [under_setAttribute sorted.removeAttribute, under_removeAttribute]

theorem under_replaceCollection (name : String) (value : Json) :
    under (replaceCollection name value container) name =
      replaceCollection name value (container.under name) := by
  unfold replaceCollection
  split
  · exact under_setAttribute sorted name value
  · exact under_removeAttribute container name

theorem under_mergeInto (definition : Attribute) (entries : Object) :
    under (mergeInto definition entries container) definition.name =
      mergeInto definition entries (container.under definition.name) := by
  simp only [mergeInto, slot?_under]
  split
  · rw [under_setAttribute sorted.removeAttribute, under_removeAttribute]
  · exact under_removeAttribute container definition.name

theorem under_storeItems (name : String) (items : List Json) :
    under (storeItems name items container) name = storeItems name items (container.under name) := by
  unfold storeItems
  split
  · exact under_removeAttribute container name
  · exact under_replaceSlot sorted name _

theorem under_ensureObject (name : String) :
    under (ensureObject name container) name = ensureObject name (container.under name) := by
  unfold ensureObject
  rw [attribute?_under]
  split
  · rfl
  · exact under_setAttribute sorted name _

theorem under_setSub (name : String) (sub : Attribute) (value : Json) :
    under (setSub name sub value container) name = setSub name sub value (container.under name) := by
  have sortedEnsured := (ensureObject_edits name container).sorted sorted
  simp only [setSub, ← under_ensureObject sorted, slot?_under]
  split
  · exact under_replaceSlot sortedEnsured name _
  · rfl

theorem under_clearSub (name : String) (sub : Attribute) :
    under (clearSub name sub container) name = clearSub name sub (container.under name) := by
  unfold clearSub
  rw [slot?_under]
  split
  · simp only []
    split
    · exact under_replaceSlot sorted name _
    · exact under_removeAttribute container name
  · rfl

theorem under_changeSubOfValue (name : String) (sub : Attribute) (change : Change) :
    under (changeSubOfValue name sub change container) name =
      changeSubOfValue name sub change (container.under name) := by
  unfold changeSubOfValue
  split
  · exact under_setSub sorted name sub _
  · exact under_clearSub sorted name sub

end Writes

/-! ### Steps on one name -/

variable {target : Target} {change : Change} {before between after : Object}

/-- Objects with the same entries under the name of an attribute are rewritten to such objects. -/
theorem Target.Rewrites.transfer {other : Object} (sorted : before.Sorted) (sortedOther : other.Sorted)
    (same : before.under target.definition.name = other.under target.definition.name)
    (rewrites : target.Rewrites change before after) :
    ∃ left, target.Rewrites change other left ∧
      left.under target.definition.name = after.under target.definition.name := by
  have read : before.attribute? target.definition.name = other.attribute? target.definition.name := by
    rw [← attribute?_under, same, attribute?_under]
  have slot : before.slot? target.definition.name = other.slot? target.definition.name := by
    rw [← slot?_under, same, slot?_under]
  have allows {sub : Attribute} (allowed : target.AllowsSub before sub) : target.AllowsSub other sub := by
    rwa [Target.AllowsSub, ← read]
  -- What has been found before is found again, and what is made of it depends on nothing else.
  cases rewrites with
  | removed filtered inner isRemove =>
    exact ⟨_, .removed filtered inner isRemove, by rw [under_removeAttribute, under_removeAttribute, same]⟩
  | added filtered inner many isAdd =>
    exact ⟨_, .added filtered inner many isAdd,
      by rw [under_addToCollection sortedOther, under_addToCollection sorted, same]⟩
  | replaced filtered inner many isReplace =>
    exact ⟨_, .replaced filtered inner many isReplace,
      by rw [under_replaceCollection sortedOther, under_replaceCollection sorted, same]⟩
  | merged filtered inner single complex written checked =>
    rw [read] at checked
    exact ⟨_, .merged filtered inner single complex written checked,
      by rw [under_mergeInto sortedOther, under_mergeInto sorted, same]⟩
  | overwritten filtered inner single simple written =>
    exact ⟨_, .overwritten filtered inner single simple written,
      by rw [under_setAttribute sortedOther, under_setAttribute sorted, same]⟩
  | untouched filtered inner many allowed nothing noItems =>
    rw [slot] at noItems
    exact ⟨other, .untouched filtered inner many (allows allowed) nothing noItems, same.symm⟩
  | subOfItems filtered inner many allowed someItems complete =>
    rw [slot] at someItems complete
    exact ⟨_, .subOfItems filtered inner many (allows allowed) someItems complete,
      by rw [under_storeItems sortedOther, under_storeItems sorted, same]⟩
  | subOfValue filtered inner single allowed =>
    exact ⟨_, .subOfValue filtered inner single (allows allowed),
      by rw [under_changeSubOfValue sortedOther, under_changeSubOfValue sorted, same]⟩
  | selected filtered matching changed =>
    rw [slot] at matching changed
    exact ⟨_, .selected filtered matching changed,
      by rw [under_storeItems sortedOther, under_storeItems sorted, same]⟩

/-- A step looks at the entries under a name, and changes them only. -/
structure PatchStep.ActsOn (name : String) (step : PatchStep Unit) : Prop where
  edits : ∀ before after, step before = .ok () after → Edits name before after
  transfers : ∀ before other after : Object, before.Sorted → other.Sorted →
    before.under name = other.under name → step before = .ok () after →
      ∃ left : Object, step other = .ok () left ∧ left.under name = after.under name

theorem applyInContainer_actsOn (target : Target) (change : Change) :
    PatchStep.ActsOn target.definition.name (applyInContainer target change) where
  edits _ _ applied := (applyInContainer_eq_ok applied).2.edits
  transfers before other after sorted sortedOther same applied := by
    obtain ⟨allowed, rewrites⟩ := applyInContainer_eq_ok applied
    obtain ⟨left, rewritesOther, sameLeft⟩ := rewrites.transfer sorted sortedOther same
    have allowedOther : checkMutable target.definition (other.has target.definition.name) = .ok () := by
      rwa [← has_under, ← same, has_under]
    exact ⟨left, applyInContainer_of_rewrites allowedOther rewritesOther, sameLeft⟩

/-- **Steps on different names** can be carried out in either order. -/
theorem PatchStep.ActsOn.swap {first second : PatchStep Unit} (onFirst : ActsOn name first)
    (onSecond : ActsOn other second) (apart : Text.fold name ≠ Text.fold other) (sorted : before.Sorted)
    (isFirst : first before = .ok () between) (isSecond : second between = .ok () after) :
    ∃ swapped, second before = .ok () swapped ∧ first swapped = .ok () after := by
  have editsFirst := onFirst.edits _ _ isFirst
  have editsSecond := onSecond.edits _ _ isSecond
  have sortedBetween := editsFirst.sorted sorted
  -- The second step finds before the first one what it finds after it, and the other way round.
  obtain ⟨swapped, early, sameEarly⟩ := onSecond.transfers _ before _ sortedBetween sorted
    (under_of_edits sorted editsFirst apart.symm) isSecond
  have editsEarly := onSecond.edits _ _ early
  have sortedSwapped := editsEarly.sorted sorted
  obtain ⟨final, late, sameLate⟩ := onFirst.transfers _ swapped _ sorted sortedSwapped
    (under_of_edits sorted editsEarly apart).symm isFirst
  have editsLate := onFirst.edits _ _ late
  suffices final = after from ⟨swapped, early, this ▸ late⟩
  refine (editsLate.sorted sortedSwapped).eq_of_under (editsSecond.sorted sortedBetween) fun key => ?_
  by_cases isName : Text.fold key = Text.fold name
  · rw [under_congr final isName, under_congr after isName, sameLate,
      under_of_edits sortedBetween editsSecond apart]
  · rw [under_of_edits sortedSwapped editsLate isName]
    by_cases isOther : Text.fold key = Text.fold other
    · rw [under_congr swapped isOther, under_congr after isOther, sameEarly]
    · rw [under_of_edits sorted editsEarly isOther, under_of_edits sortedBetween editsSecond isOther,
        under_of_edits sorted editsFirst isName]

/-! ### Operations on the base -/

section Operation

variable {limits : Limits} {view : View} {operation : PatchOperation} {definition : Attribute}

/-- The attribute of the base that an operation is made to, be it to all of it, to a sub-attribute or
to selected elements. There is none if the path leads elsewhere or nowhere. -/
def PatchOperation.baseAttribute? (operation : PatchOperation) (view : View) : Option Attribute := do
  let path ← operation.path
  match path.wholeExtension? view with
  | some _ => none
  | none =>
    let resolved ← view.resolveAttribute? path.reference
    if resolved.member.place = .base then some resolved.definition else none

theorem PatchOperation.baseAttribute?_eq_some (onBase : operation.baseAttribute? view = some definition) :
    ∃ path resolved, operation.path = some path ∧ path.wholeExtension? view = none ∧
      view.resolveAttribute? path.reference = some resolved ∧ resolved.member.key? = none ∧
      resolved.definition = definition := by
  obtain ⟨path, isPath, onBase⟩ := Option.bind_eq_some_iff.mp onBase
  split at onBase
  · cases onBase
  next attributewise =>
    obtain ⟨resolved, bound, onBase⟩ := Option.bind_eq_some_iff.mp onBase
    obtain ⟨atTop, same⟩ := Option.ite_none_right_eq_some.mp onBase
    refine ⟨path, resolved, isPath, attributewise, bound, ?_, Option.some.inj same⟩
    rw [Member.key?, atTop]

theorem applyTarget_eq_ok_iff_of_top (atTop : target.container = none) :
    applyTarget target change before = .ok () after ↔
      target.checkFilter change = .ok () ∧ target.checkValue change = .ok () ∧
        applyInContainer target change before = .ok () after := by
  simp only [applyTarget, atTop, step_bind_eq_ok_iff, step_check_eq_ok_iff]
  constructor
  · rintro ⟨_, _, ⟨filterOk, rfl⟩, _, _, ⟨valueOk, rfl⟩, applied⟩
    exact ⟨filterOk, valueOk, applied⟩
  · rintro ⟨filterOk, valueOk, applied⟩
    exact ⟨_, _, ⟨filterOk, rfl⟩, _, _, ⟨valueOk, rfl⟩, applied⟩

/-- An operation on an attribute of the base acts on the entries under its name. -/
theorem PatchOperation.apply_actsOn (onBase : operation.baseAttribute? view = some definition) :
    PatchStep.ActsOn definition.name (operation.apply view) := by
  obtain ⟨path, resolved, isPath, attributewise, bound, atTop, rfl⟩ := baseAttribute?_eq_some onBase
  -- The path, the verb and the value settle the change, whatever the resource is.
  have settled (before after : Object) (applied : operation.apply view before = .ok () after) :
      ∃ target change, target.definition = resolved.definition ∧
        applyInContainer target change before = .ok () after ∧
        ∀ other left, applyInContainer target change other = .ok () left →
          operation.apply view other = .ok () left := by
    obtain ⟨sub, change, _, isTarget, made, applied⟩ :=
      exists_target_of_apply isPath attributewise bound applied
    obtain ⟨filterOk, valueOk, applied⟩ := (applyTarget_eq_ok_iff_of_top atTop).mp applied
    refine ⟨_, change, rfl, applied, fun other left appliedOther => ?_⟩
    exact (apply_eq_ok_iff isPath attributewise).mpr ⟨_, change, isTarget, made,
      (applyTarget_eq_ok_iff_of_top atTop).mpr ⟨filterOk, valueOk, appliedOther⟩⟩
  constructor
  case edits =>
    intro before after applied
    obtain ⟨target, change, same, applied, _⟩ := settled before after applied
    exact same ▸ (applyInContainer_actsOn target change).edits before after applied
  case transfers =>
    intro before other after sorted sortedOther sameEntries applied
    obtain ⟨target, change, same, applied, again⟩ := settled before after applied
    rw [← same] at sameEntries ⊢
    obtain ⟨left, appliedOther, sameLeft⟩ :=
      (applyInContainer_actsOn target change).transfers before other after sorted sortedOther sameEntries
        applied
    exact ⟨left, again other left appliedOther, sameLeft⟩

/-! ### Rows of operations -/

/-- The operations are made to attributes of the base, no two of them to one. -/
structure View.Independent (view : View) (operations : List PatchOperation) : Prop where
  onBase : ∀ operation ∈ operations, ∃ definition, operation.baseAttribute? view = some definition
  apart : operations.Pairwise fun first second =>
    ∀ definition other, first.baseAttribute? view = some definition →
      second.baseAttribute? view = some other → Text.fold definition.name ≠ Text.fold other.name

namespace View.Independent

variable {operations others : List PatchOperation}

theorem tail (independent : view.Independent (operation :: operations)) : view.Independent operations :=
  ⟨(List.forall_mem_cons.mp independent.onBase).2, (List.pairwise_cons.mp independent.apart).2⟩

theorem perm (independent : view.Independent operations) (perm : operations.Perm others) :
    view.Independent others where
  onBase operation member := independent.onBase operation (perm.mem_iff.mpr member)
  apart := (perm.pairwise_iff fun apart definition other isSecond isFirst =>
    (apart other definition isFirst isSecond).symm).mp independent.apart

end View.Independent

/-- **Independent operations that succeed one after the other succeed in any order**, and lead to the
same resource. -/
theorem commits_perm {operations others : List PatchOperation} {object : Object} {final : Json}
    (sorted : object.Sorted) (independent : view.Independent operations)
    (perm : operations.Perm others) (commits : Commits limits view (.object object) operations final) :
    Commits limits view (.object object) others final := by
  induction perm generalizing object with
  | nil => exact commits
  | cons operation perm ih =>
    cases commits with
    | step alone rest =>
      obtain ⟨between, rfl, applied⟩ := exists_of_patch_singleton alone
      obtain ⟨definition, onBase⟩ := independent.onBase operation List.mem_cons_self
      have edits := (operation.apply_actsOn onBase).edits object between applied
      exact .step alone (ih (edits.sorted sorted) independent.tail rest)
  | swap first second rest =>
    cases commits with
    | step aloneSecond rest =>
      have fits := fits_of_patch_singleton (congrArg PatchOutcome.error aloneSecond)
      obtain ⟨between, rfl, appliedSecond⟩ := exists_of_patch_singleton aloneSecond
      obtain ⟨after, appliedFirst, rest⟩ := (commits_cons_iff fits).mp rest
      obtain ⟨other, onOther⟩ := independent.onBase second List.mem_cons_self
      obtain ⟨definition, onBase⟩ := independent.tail.onBase first List.mem_cons_self
      -- Neighbours that change places are steps on different names.
      have apart := (List.pairwise_cons.mp independent.apart).1 first List.mem_cons_self _ _ onOther onBase
      obtain ⟨swapped, early, late⟩ := (second.apply_actsOn onOther).swap (first.apply_actsOn onBase) apart
        sorted appliedSecond appliedFirst
      exact (commits_cons_iff fits).mpr ⟨swapped, early, (commits_cons_iff fits).mpr ⟨after, late, rest⟩⟩
  | trans first _ ihFirst ihSecond =>
    exact ihSecond sorted (independent.perm first) (ihFirst sorted independent commits)

/-- A request with independent operations can be sent with its operations in any order. -/
theorem patch_perm {operations others : List PatchOperation} {object : Object} {final : Json}
    (sorted : object.Sorted) (independent : view.Independent operations)
    (perm : operations.Perm others) :
    patch limits view operations (.object object) = ⟨final, none⟩ ↔
      patch limits view others (.object object) = ⟨final, none⟩ := by
  by_cases fits : operations.length ≤ limits.maxPatchOperations
  · rw [patch_of_length_le fits, patch_of_length_le (perm.length_eq ▸ fits),
      ofOperations_eq_none_iff fits, ofOperations_eq_none_iff (perm.length_eq ▸ fits)]
    exact ⟨commits_perm sorted independent perm, commits_perm sorted (independent.perm perm) perm.symm⟩
  · have tooMany := Nat.lt_of_not_le fits
    rw [patch, patch, if_pos tooMany, if_pos (perm.length_eq ▸ tooMany)]
    simp

/-- **Operations on different attributes commute**: if two operations of any kind are made to
attributes of the base whose names differ by more than case, and succeed in one order, they succeed in
the other one and give the same resource, whether each of them is sent alone or both in one request. -/
theorem patch_commutes (limits : Limits) (view : View) (first second : PatchOperation)
    (definition other : Attribute) (object : Object) (final : Json) (sorted : object.Sorted)
    (isFirst : first.baseAttribute? view = some definition)
    (isSecond : second.baseAttribute? view = some other)
    (apart : Text.fold definition.name ≠ Text.fold other.name) :
    (Commits limits view (.object object) [first, second] final ↔
      Commits limits view (.object object) [second, first] final) ∧
    (patch limits view [first, second] (.object object) = ⟨final, none⟩ ↔
      patch limits view [second, first] (.object object) = ⟨final, none⟩) := by
  have independent : view.Independent [first, second] := by
    refine ⟨?_, List.pairwise_pair.mpr fun named namedOther isNamed isNamedOther => ?_⟩
    · intro operation member
      rcases List.mem_pair.mp member with rfl | rfl
      · exact ⟨definition, isFirst⟩
      · exact ⟨other, isSecond⟩
    · rw [isFirst] at isNamed
      rw [isSecond] at isNamedOther
      cases isNamed
      cases isNamedOther
      exact apart
  have perm : [first, second].Perm [second, first] := .swap second first []
  exact ⟨⟨commits_perm sorted independent perm, commits_perm sorted (independent.perm perm) perm.symm⟩,
    patch_perm sorted independent perm⟩

/-- An element is selected and changed, and part of a name is removed. Both attributes stand in the
resource under two spellings. -/
theorem patch_commutes_spellings :
    let emails : Attribute :=
      { name := "emails", type := .complex, multiValued := true
        subAttributes := [{ name := "value" }, { name := "label" }] }
    let person : Attribute :=
      { name := "name", type := .complex, subAttributes := [{ name := "given" }, { name := "family" }] }
    let view := View.ofSchemas { id := "urn:a", attributes := [emails, person] } []
    let filter : Filter := .compare ⟨none, "value", none⟩ .eq (.string "a")
    let first : PatchOperation :=
      { verb := .replace
        path := some { reference := ⟨none, "emails", none⟩, filter := some filter, sub := some "LABEL" }
        value := some (.string "x") }
    let second : PatchOperation :=
      { verb := .remove, path := some { reference := ⟨none, "NAME", some "given"⟩ } }
    let other : Json := .object [("value", .string "b")]
    let before : Object :=
      [("EMAILS", .array [.object [("value", .string "a")], other]), ("Emails", .array []),
        ("NAME", .object [("family", .string "f"), ("given", .string "g")]), ("name", .null)]
    let after : Object :=
      [("EMAILS", .array [.object [("label", .string "x"), ("value", .string "a")], other]),
        ("Emails", .array []), ("NAME", .object [("family", .string "f")]), ("name", .null)]
    patch {} view [first, second] (.object before) = ⟨.object after, none⟩ ∧
      patch {} view [second, first] (.object before) = ⟨.object after, none⟩ := by
  intro emails person view filter first second other before after
  have done : patch {} view [first, second] (.object before) = ⟨.object after, none⟩ := by
    dsimp +zetaDelta only
    rfl
  have sorted : before.Sorted := by
    simp only [before, Object.Sorted, Object.keys]
    decide
  have commutes := patch_commutes {} view first second emails person before (.object after) sorted
    (by decide) (by decide) (by decide)
  exact ⟨done, commutes.2.mp done⟩

end Operation

end Scim
