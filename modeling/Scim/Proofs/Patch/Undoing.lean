import Scim.Proofs.Patch.Repeating

/-!
# Taking back what has been added

What is added to a resource may need an object to stand in: a single value for a sub-attribute, the
object of an extension and its entry in `schemas`. Where nothing stood in the place, removing takes
back what has been added together with the objects that have been made for it, and nothing else. An
object that was there stays, provided that it holds something, since one that holds nothing is not kept.
-/

namespace Scim

open Object

variable {target : Target} {change : Change} {urn : String}
  {container changed before between after : Object}

/-! ### Attributes that can be removed -/

/-- Clients may write the attribute, whatever is stored. -/
def Attribute.IsWritable (definition : Attribute) : Prop :=
  definition.mutability = .readWrite ∨ definition.mutability = .writeOnly

theorem Attribute.IsWritable.checkMutable {definition : Attribute} (writable : definition.IsWritable)
    (present : Bool) : checkMutable definition present = .ok () := by
  unfold Scim.checkMutable
  rcases writable with mutability | mutability <;> rw [mutability]

/-- Clients may write the attribute, or the sub-attribute of a single value. -/
structure Target.IsWritable (target : Target) : Prop where
  unfiltered : target.filter = none
  definition : target.definition.IsWritable
  sub : ∀ sub, target.sub = some sub → sub.IsWritable ∧ target.definition.multiValued = false

/-- What is left of the object that holds an attribute once the target has been removed. -/
def Target.cleared (target : Target) (container : Object) : Object :=
  match target.sub with
  | none => container.removeAttribute target.definition.name
  | some sub => clearSub target.definition.name sub container

/-- Removing never fails where clients may write. -/
theorem Target.IsWritable.applyInContainer (writable : target.IsWritable) (container : Object) :
    applyInContainer target .remove container = .ok () (target.cleared container) := by
  have allowed := writable.definition.checkMutable (container.has target.definition.name)
  unfold Scim.applyInContainer cleared
  rw [writable.unfiltered]
  cases inner : target.sub with
  | none =>
    simp only [applyWhole, step_bind_eq_ok_iff, step_get_eq_ok_iff, step_check_eq_ok_iff,
      step_modify_eq_ok_iff]
    exact ⟨_, _, ⟨rfl, rfl⟩, (), _, ⟨allowed, rfl⟩, rfl⟩
  | some sub =>
    obtain ⟨writableSub, single⟩ := writable.sub sub inner
    simp only [applySub, step_bind_eq_ok_iff, step_get_eq_ok_iff, step_check_eq_ok_iff]
    refine ⟨_, _, ⟨rfl, rfl⟩, (), _, ⟨allowed, rfl⟩, (), _, ⟨writableSub.checkMutable _, rfl⟩, ?_⟩
    rw [if_neg (Bool.eq_false_iff.mp single), step_modify_eq_ok_iff]
    rfl

/-! ### The object that holds the attribute -/

/-- Nothing stands in an object where a target would be written: neither the attribute, nor, in a
single value that holds something, the sub-attribute. -/
inductive Target.IsFree (target : Target) (container : Object) : Prop
  | absent : container.attribute? target.definition.name = none → IsFree target container
  | inside {sub : Attribute} {parent : Object} : target.sub = some sub →
    container.attribute? target.definition.name = some (.object parent) → parent.holdsAny = true →
    parent.attribute? sub.name = none → IsFree target container

/-- A sub-attribute that has been put into a value where it was not leaves the value when it is
cleared; a value that has been made for it goes. -/
theorem clearSub_setSub {name : String} {sub : Attribute} (value : Json)
    (keyed : Json.IsKeyed (.object container))
    (new : (storedObject (container.attribute? name)).attribute? sub.name = none) :
    clearSub name sub (setSub name sub value container) =
      if (storedObject (container.attribute? name)).holdsAny then
        (setSub name sub value container).replaceSlot name
          (.object (storedObject (container.attribute? name)))
      else (setSub name sub value container).removeAttribute name := by
  have regular := regular_of_isKeyed keyed
  have regularSet := regular.of_edits (setSub_edits name sub value container)
  have slot := (slot?_eq_attribute? regularSet.unambiguous).trans
    (attribute?_setSub name regular.unambiguous sub value)
  have cleared : Object.removeAttribute
      (Object.setAttribute (storedObject (container.attribute? name)) sub.name value) sub.name =
        storedObject (container.attribute? name) :=
    (regular_storedObject keyed name).removeAttribute_of_edits (.set value .refl) new
  rw [clearSub_of_object slot]
  exact cleared.symm ▸ rfl

/-- **Removing takes back what has been written** in the object that holds the attribute. -/
theorem Target.IsFree.cleared_eq (free : target.IsFree container) (writable : target.IsWritable)
    (keyed : Json.IsKeyed (.object container)) (written : change.value?.isSome = true)
    (rewrites : target.Rewrites change container changed) : target.cleared changed = container := by
  have regular := regular_of_isKeyed keyed
  unfold cleared
  cases inner : target.sub with
  | none =>
    cases free with
    | absent absent => exact regular.removeAttribute_of_edits rewrites.edits absent
    | inside isSub =>
      rw [inner] at isSub
      cases isSub
  | some sub =>
    obtain ⟨value, isValue⟩ := Option.isSome_iff_exists.mp written
    obtain rfl : changed = setSub target.definition.name sub value container := by
      rw [rewrites.of_sub inner writable.unfiltered (writable.sub sub inner).2, changeSubOfValue, isValue]
    cases free with
    | absent absent =>
      -- The value has been made for the sub-attribute, and holds nothing without it.
      have nothing : storedObject (container.attribute? target.definition.name) = [] := by
        rw [absent]
        rfl
      simp only
      rw [clearSub_setSub value keyed (by rw [nothing]; rfl), nothing]
      exact regular.removeAttribute_of_edits rewrites.edits absent
    | @inside _ parent isSub stored holds new =>
      rw [inner] at isSub
      cases isSub
      -- The value holds something without the sub-attribute, so it stays.
      have isParent : storedObject (container.attribute? target.definition.name) = parent := by
        rw [stored]
        rfl
      simp only
      rw [clearSub_setSub value keyed (isParent ▸ new), isParent, if_pos holds,
        setSub_of_object regular.unambiguous stored]
      exact regular.replaceSlot_replaceSlot_of_there stored

/-- An object that has held something still does when a target has been written that was not there. -/
theorem Target.IsFree.holdsAny (free : target.IsFree container) (writable : target.IsWritable)
    (keyed : Json.IsKeyed (.object container)) (holds : container.holdsAny = true)
    (written : change.value?.isSome = true)
    (rewrites : target.Rewrites change container changed) : changed.holdsAny = true := by
  have regular := regular_of_isKeyed keyed
  cases free with
  | absent absent => exact regular.holdsAny_of_edits rewrites.edits absent holds
  | @inside sub parent inner stored holdsParent new =>
    obtain ⟨value, isValue⟩ := Option.isSome_iff_exists.mp written
    have slot := (slot?_eq_attribute? regular.unambiguous).trans stored
    have regularParent := regular_of_isKeyed (keyed.of_slot? slot)
    have left : Object.attribute? changed target.definition.name =
        some (.object (parent.setAttribute sub.name value)) := by
      rw [rewrites.of_sub inner writable.unfiltered (writable.sub sub inner).2, changeSubOfValue, isValue]
      exact (attribute?_setSub _ regular.unambiguous sub value).trans (stored ▸ rfl)
    have holdsValue : changed.has target.definition.name = true := by
      rw [Object.has, left]
      exact regularParent.holdsAny_of_edits (.set value .refl) new holdsParent
    exact holdsAny_of_has holdsValue

/-! ### The resource -/

/-- Nothing stands in a resource where a target would be written. Where the attribute is one of an
extension, the resource is without the extension, or the object of the extension holds something. -/
inductive Target.IsVacant (target : Target) (resource : Object) : Prop
  | atTop : target.container = none → target.IsFree resource → IsVacant target resource
  | newExtension {urn : String} : target.container = some urn → LacksExtension urn resource →
    IsVacant target resource
  | inExtension {urn : String} {fields : Object} : target.container = some urn →
    resource.attribute? urn = some (.object fields) → fields.holdsAny = true → target.IsFree fields →
    IsVacant target resource

section Extension

variable {create : Bool} {absent step : PatchStep Unit}

/-- A step is taken in the object of an extension that is there. -/
theorem inExtension_eq_ok_of_there (regular : before.Regular)
    (there : before.attribute? urn = some (.object container))
    (stepped : step container = .ok () changed) :
    inExtension urn create absent step before =
      .ok () (if changed.holdsAny then before.replaceSlot urn (.object changed)
        else unregisterExtension (before.removeAttribute urn) urn) := by
  have notMissing : (before.attribute? urn).all Json.isNull = false := by rw [there]; rfl
  have slot := (slot?_eq_attribute? regular.unambiguous).trans there
  simp only [inExtension, step_bind_eq_ok_iff, step_get_eq_ok_iff]
  refine ⟨_, _, ⟨rfl, rfl⟩, ?_⟩
  simp only [notMissing, Bool.false_and, Bool.false_eq_true, if_false, step_bind_eq_ok_iff,
    step_modify_eq_ok_iff]
  exact ⟨(), _, rfl, (), _, inSlot_eq_ok_iff.mpr ⟨container, changed, slot, stepped, rfl⟩,
    tidyExtension_replaceSlot regular there changed⟩

/-- Where there is no object and none is made, the step is skipped. -/
theorem inExtension_eq_ok_of_lacks (regular : before.Regular) (lacks : LacksExtension urn before)
    (skipped : absent before = .ok () after) :
    inExtension urn false absent step before = .ok () after := by
  have missing : (before.attribute? urn).all Json.isNull = true := by
    rw [regular.attribute?_eq_named?, lacks.absent]
    rfl
  simp only [inExtension, step_bind_eq_ok_iff, step_get_eq_ok_iff]
  refine ⟨_, _, ⟨rfl, rfl⟩, ?_⟩
  simp only [missing, Bool.not_false, Bool.and_self, if_true]
  exact skipped

variable {undo : PatchStep Unit}

/-- A step that has made an extension is taken back by one that empties what it has left. -/
theorem inExtension_undone_of_lacks (regular : before.Regular) (lacks : LacksExtension urn before)
    (undone : ∀ {made : Object}, step [] = .ok () made → undo made = .ok () [])
    (skipped : absent before = .ok () before)
    (done : inExtension urn true absent step before = .ok () after) :
    inExtension urn false absent undo after = .ok () before := by
  rcases inExtension_of_lacks regular lacks done with ⟨impossible, _⟩ | ⟨_, made, stepped, rfl⟩
  · cases impossible
  · by_cases holds : made.holdsAny = true
    · -- The new object has stayed, and is emptied and dropped now.
      have created : (createExtension urn before).Regular := regular_createExtension regular
      have stored := (createExtension_spec urn regular.unambiguous).2
      have there : Object.attribute? ((createExtension urn before).replaceSlot urn (.object made)) urn =
          some (.object made) := attribute?_replaceSlot_self created.unambiguous stored
      have nothing : ¬Object.holdsAny [] = true := Bool.false_ne_true
      rw [if_pos holds, inExtension_eq_ok_of_there (created.replaceSlot urn _) there (undone stepped),
        if_neg nothing, created.removeAttribute_replaceSlot, dropExtension_createExtension regular lacks]
    · -- The new object has been dropped at once, so there is nothing to be taken back.
      rw [if_neg holds]
      exact inExtension_eq_ok_of_lacks regular lacks skipped

/-- A step in an object that is there, and still holds something after it, is taken back in it. -/
theorem inExtension_undone_of_there (regular : before.Regular)
    (there : before.attribute? urn = some (.object container)) (holds : container.holdsAny = true)
    (undone : ∀ {changed : Object}, step container = .ok () changed →
      changed.holdsAny = true ∧ undo changed = .ok () container)
    (done : inExtension urn create absent step before = .ok () after) :
    inExtension urn false absent undo after = .ok () before := by
  obtain ⟨changed, stepped, rfl⟩ := inExtension_of_there regular there done
  obtain ⟨holdsChanged, back⟩ := undone stepped
  have left : Object.attribute? (before.replaceSlot urn (.object changed)) urn =
      some (.object changed) := attribute?_replaceSlot_self regular.unambiguous there
  rw [if_pos holdsChanged, inExtension_eq_ok_of_there (regular.replaceSlot urn _) left back, if_pos holds,
    regular.replaceSlot_replaceSlot_of_there there]

end Extension

/-- A change that has written a target that was not there is taken back by removing the target. -/
theorem applyTarget_undone (keyed : Json.IsKeyed (.object before)) (writable : target.IsWritable)
    (vacant : target.IsVacant before) (written : change.value?.isSome = true)
    (done : applyTarget target change before = .ok () after) :
    applyTarget target .remove after = .ok () before := by
  have regular := regular_of_isKeyed keyed
  have unfiltered := writable.unfiltered
  have filterOk : target.checkFilter .remove = .ok () := by
    unfold Target.checkFilter
    rw [unfiltered]
  simp only [applyTarget, step_bind_eq_ok_iff, step_check_eq_ok_iff] at done ⊢
  obtain ⟨_, _, ⟨_, rfl⟩, _, _, ⟨_, rfl⟩, done⟩ := done
  refine ⟨(), _, ⟨filterOk, rfl⟩, (), _, ⟨rfl, rfl⟩, ?_⟩
  -- What has been written in the object that holds the attribute is taken back in it.
  have undone {container changed : Object} (keyed : Json.IsKeyed (.object container))
      (free : target.IsFree container)
      (stepped : applyInContainer target change container = .ok () changed) :
      applyInContainer target .remove changed = .ok () container := by
    rw [writable.applyInContainer,
      free.cleared_eq writable keyed written (applyInContainer_eq_ok stepped).2]
  cases vacant with
  | atTop place free =>
    rw [place] at done ⊢
    exact undone keyed free done
  | newExtension place lacks =>
    simp only [place, written, unfiltered] at done ⊢
    exact inExtension_undone_of_lacks regular lacks (undone Json.isKeyed_empty (.absent rfl)) rfl done
  | inExtension place there holds free =>
    simp only [place] at done ⊢
    have slot := (slot?_eq_attribute? regular.unambiguous).trans there
    have keyedFields := keyed.of_slot? slot
    refine inExtension_undone_of_there regular there holds (fun stepped => ⟨?_, ?_⟩) done
    · exact free.holdsAny writable keyedFields holds written (applyInContainer_eq_ok stepped).2
    · exact undone keyedFields free stepped

/-! ### Operations -/

variable {limits : Limits} {view : View} {adding removing : PatchOperation} {path : PatchPath}
  {added : Json}

/-- **Removing undoes adding**: in any view, if a value has been added to an attribute, or to a
sub-attribute of a single value, that clients may write, and nothing stood in the place, then the
operation that removes at the same path succeeds and gives back the resource as it was. -/
theorem patch_undone (ordered : (Json.object before).Ordered)
    (distinct : (Json.object before).isDistinct = true) (isAdd : adding.verb = .add)
    (isRemove : removing.verb = .remove) (isPath : adding.path = some path)
    (samePath : removing.path = some path) (attributewise : path.wholeExtension? view = none)
    (bound : Target.resolve view path.reference path.filter path.sub path.text = .ok target)
    (writable : target.IsWritable) (vacant : target.IsVacant before)
    (done : patch limits view [adding] (.object before) = ⟨added, none⟩) :
    patch limits view [removing] added = ⟨.object before, none⟩ := by
  have fits := fits_of_patch_singleton (congrArg PatchOutcome.error done)
  obtain ⟨after, rfl, applied⟩ := exists_of_patch_singleton done
  obtain ⟨_, change, isTarget, made, applied⟩ := PatchOperation.apply_eq_ok isPath attributewise applied
  obtain rfl := Except.ok.inj (bound.symm.trans isTarget)
  obtain ⟨value, _, _, rfl⟩ := Change.eq_add_of_ofOperation isAdd made
  have undone := applyTarget_undone ⟨ordered, distinct⟩ writable vacant rfl applied
  -- Whatever its value, the second operation removes.
  have removes : Change.ofOperation removing.verb removing.value target.path = .ok .remove := by
    rw [isRemove]
    cases removing.value.filter (!·.isNull) <;> rfl
  refine (patch_singleton_eq_ok_iff fits).mpr ⟨before, rfl, ?_⟩
  exact (PatchOperation.apply_eq_ok_iff samePath attributewise).mpr ⟨target, _, bound, removes, undone⟩

/-- The first name that is written makes the extension, its manager and the entry in the list. -/
theorem patch_undone_manager :
    let name : Attribute := { name := "displayName", mutability := .writeOnly }
    let manager : Attribute := { name := "manager", type := .complex, subAttributes := [name] }
    let view := View.ofSchemas { id := "urn:a", attributes := [{ name := "title" }] }
      [{ id := "urn:b", attributes := [manager] }]
    let path : PatchPath := { reference := ⟨some "URN:B", "Manager", some "DISPLAYNAME"⟩ }
    let adding : PatchOperation := { verb := .add, path := some path, value := some (.string "Ann") }
    let removing : PatchOperation := { verb := .remove, path := some path }
    let before : Json := .object [("Schemas", .array [.string "urn:a"]), ("title", .string "t")]
    let added : Json := .object [("Schemas", .array [.string "urn:a", .string "urn:b"]),
      ("title", .string "t"),
      ("urn:b", .object [("manager", .object [("displayName", .string "Ann")])])]
    patch {} view [adding] before = ⟨added, none⟩ ∧ patch {} view [removing] added = ⟨before, none⟩ := by
  refine (and_iff_left_of_imp fun done => ?_).mpr rfl
  refine patch_undone ?ordered rfl rfl rfl rfl rfl rfl rfl ⟨rfl, .inl rfl, ?sub⟩
    (.newExtension rfl ?lacks) done
  case ordered =>
    simp only [Json.Ordered, Json.OrderedEntries, Json.OrderedItems, Object.Sorted, and_true]
    decide
  case sub =>
    intro sub inner
    cases inner
    exact ⟨.inr rfl, rfl⟩
  case lacks =>
    refine ⟨rfl, fun key urns listed => ?_⟩
    cases listed
    decide

end Scim
