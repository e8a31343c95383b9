import Scim.Proofs.Patch.Commits
import Scim.Proofs.Patch.Extension
import Scim.Proofs.Resource.Distinct

/-!
# What an operation leaves alone

An operation on an attribute touches the entry of that attribute and, for an attribute of an
extension, the entry of the extension and `schemas`. In the object of the extension, and in a single
value one sub-attribute of which is written, everything else is kept as well; only what holds nothing
any more is dropped as a whole.
-/

namespace Scim

open Object

variable {view : View} {target : Target} {change : Change} {before after container : Object}
  {urn : String}

/-! ### The entry of an extension -/

theorem createExtension_sameExcept (urn : String) (resource : Object) :
    SameExcept [urn, "schemas"] resource (createExtension urn resource) := by
  have made : SameExcept [urn, "schemas"] resource (resource.setAttribute urn (.object [])) :=
    (SameExcept.setAttribute resource urn (.object [])).mono (by simp)
  exact made.trans ((changeSchemas_edits _ _).sameExcept.mono (by simp))

theorem unregisterExtension_sameExcept (urn : String) (resource : Object) :
    SameExcept [urn, "schemas"] resource (unregisterExtension (resource.removeAttribute urn) urn) := by
  have removed : SameExcept [urn, "schemas"] resource (resource.removeAttribute urn) :=
    (SameExcept.removeAttribute resource urn).mono (by simp)
  exact removed.trans ((changeSchemas_edits _ _).sameExcept.mono (by simp))

theorem tidyExtension_sameExcept (urn : String) (resource : Object) :
    SameExcept [urn, "schemas"] resource (tidyExtension resource urn) := by
  unfold tidyExtension
  split
  · split
    · exact .refl _ resource
    · exact unregisterExtension_sameExcept urn resource
  · exact .refl _ resource

theorem leaveExtension_sameExcept {ready : Object}
    (isReady : (if (before.attribute? urn).all Json.isNull then createExtension urn before
      else before) = ready) (changed : Object) :
    SameExcept [urn, "schemas"] before
      (tidyExtension (ready.replaceSlot urn (.object changed)) urn) := by
  have entered : SameExcept [urn, "schemas"] before ready := by
    split at isReady
    · exact isReady ▸ createExtension_sameExcept urn before
    · exact isReady ▸ .refl _ before
  have put : SameExcept [urn, "schemas"] ready (ready.replaceSlot urn (.object changed)) :=
    (SameExcept.replaceSlot ready urn (.object changed)).mono (by simp)
  exact (entered.trans put).trans (tidyExtension_sameExcept urn _)

/-! ### The resource -/

/-- The names of the entries of a resource that a change to a target may touch. -/
def Target.touched (target : Target) : List String :=
  match target.container with
  | none => [target.definition.name]
  | some urn => [urn, "schemas"]

/-- A change to a target leaves all other entries of the resource alone. -/
theorem applyTarget_sameExcept (applied : applyTarget target change before = .ok () after) :
    SameExcept target.touched before after := by
  obtain ⟨_, _, applies⟩ := applyTarget_applies applied
  unfold Target.touched
  cases applies with
  | atTop place applied =>
    rw [place]
    obtain ⟨_, rewrites⟩ := applyInContainer_eq_ok applied
    exact rewrites.edits.sameExcept
  | skipped => exact .refl _ before
  | inside place isReady =>
    rw [place]
    exact leaveExtension_sameExcept isReady _

/-! ### A single value -/

/-- A sub-attribute of a single value is written in that value. -/
theorem Target.Rewrites.of_sub {sub : Attribute} (inner : target.sub = some sub)
    (unfiltered : target.filter = none) (single : target.definition.multiValued = false)
    (rewrites : target.Rewrites change before after) :
    after = changeSubOfValue target.definition.name sub change before := by
  cases rewrites with
  | subOfValue _ isSub =>
    rw [inner] at isSub
    cases isSub
    rfl
  | removed _ whole | added _ whole | replaced _ whole | merged _ whole | overwritten _ whole =>
    rw [inner] at whole
    cases whole
  | untouched _ _ many | subOfItems _ _ many =>
    rw [single] at many
    cases many
  | selected filtered =>
    rw [unfiltered] at filtered
    cases filtered

/-- Of a single value that is an object, only the sub-attribute that is written changes, unless
nothing is left of the value. -/
theorem changeSubOfValue_sameExcept {name : String} (sub : Attribute) (change : Change) {parent : Object}
    (unambiguous : container.Unambiguous) (stored : container.attribute? name = some (.object parent)) :
    ∃ changed, SameExcept [sub.name] parent changed ∧
      (Object.attribute? (changeSubOfValue name sub change container) name = some (.object changed) ∨
        Object.attribute? (changeSubOfValue name sub change container) name = none ∧
          changed.holdsAny = false) := by
  refine ⟨changeSub change sub parent, (changeSub_edits change sub parent).sameExcept, ?_⟩
  have slot := (slot?_eq_attribute? unambiguous).trans stored
  have ensured : ensureObject name container = container := by rw [ensureObject, stored]
  unfold changeSubOfValue changeSub
  cases change.value? with
  | some value =>
    left
    simp only [setSub, ensured, slot]
    exact attribute?_replaceSlot_self unambiguous stored
  | none =>
    simp only [clearSub, slot]
    split
    · exact .inl (attribute?_replaceSlot_self unambiguous stored)
    next empty => exact .inr ⟨attribute?_removeAttribute_self unambiguous rfl, by simpa using empty⟩

/-! ### Operations -/

namespace Resolved

variable {resolved : Resolved}

/-- The object that an extension has in a resource; an empty one where it has none. -/
def extensionObject (urn : String) (resource : Object) : Object :=
  ((resource.attribute? urn).bind Json.object?).getD []

/-- What is left alone by an operation on an attribute. Of a resource these are all other entries or,
for an attribute of an extension, all but those of the extension and `schemas`. In the object of the
extension these are all other entries too, unless the object is gone with the last value in it. -/
structure Spares (resolved : Resolved) (before after : Object) : Prop where
  base : resolved.member.key? = none → SameExcept [resolved.definition.name] before after
  extension : ∀ urn, resolved.member.key? = some urn → SameExcept [urn, "schemas"] before after
  inExtension : ∀ urn, resolved.member.key? = some urn →
    after.attribute? urn = before.attribute? urn ∨
      ∃ changed, SameExcept [resolved.definition.name] (extensionObject urn before) changed ∧
        after.attribute? urn = if changed.holdsAny then some (.object changed) else none

/-- In a single value that is an object, an operation on a sub-attribute leaves all other
sub-attributes alone, unless the value is gone because nothing is left in it. -/
def SparesSub (resolved : Resolved) (sub : Attribute) (before after : Object) : Prop :=
  ∀ parent, resolved.value? before = some (.object parent) →
    ∃ changed, SameExcept [sub.name] parent changed ∧
      (resolved.value? after = some (.object changed) ∨
        resolved.value? after = none ∧ changed.holdsAny = false)

theorem spares_of_applyTarget (place : target.container = resolved.member.key?)
    (same : target.definition = resolved.definition) (unambiguous : before.Unambiguous)
    (applied : applyTarget target change before = .ok () after) : resolved.Spares before after := by
  have touched := applyTarget_sameExcept applied
  unfold Target.touched at touched
  rw [place, same] at touched
  refine ⟨fun base => ?_, fun urn isKey => ?_, fun urn isKey => ?_⟩
  · rw [base] at touched
    exact touched
  · rw [isKey] at touched
    exact touched
  · obtain ⟨_, _, ⟨_, _, _, rfl⟩ | ⟨changed, stepped, leaves⟩⟩ :=
      applyTarget_eq_ok place unambiguous applied
    · exact .inl rfl
    · unfold Leaves at leaves
      unfold container? at stepped
      rw [isKey] at leaves stepped
      obtain ⟨_, rewrites⟩ := applyInContainer_eq_ok stepped
      exact .inr ⟨changed, same ▸ rewrites.edits.sameExcept, leaves.2⟩

theorem sparesSub_of_applyTarget {sub : Attribute} (place : target.container = resolved.member.key?)
    (same : target.definition = resolved.definition) (unfiltered : target.filter = none)
    (inner : target.sub = some sub) (single : resolved.definition.multiValued = false)
    (distinct : Json.isDistinct (.object before) = true)
    (applied : applyTarget target change before = .ok () after) :
    resolved.SparesSub sub before after := by
  intro parent stored
  obtain ⟨_, _, ⟨_, _, _, rfl⟩ | ⟨left, stepped, leaves⟩⟩ :=
    applyTarget_eq_ok place (Json.unambiguous_of_isDistinct distinct) applied
  · exact ⟨parent, .refl _ parent, .inl stored⟩
  · obtain ⟨_, rewrites⟩ := applyInContainer_eq_ok stepped
    have written := rewrites.of_sub inner unfiltered (same ▸ single)
    rw [same] at written
    rw [resolved.value?_eq] at stored
    obtain ⟨changed, spared, outcome⟩ := changeSubOfValue_sameExcept sub change
      (Json.unambiguous_container distinct resolved) stored
    rw [← written] at outcome
    refine ⟨changed, spared, ?_⟩
    rcases outcome with there | ⟨gone, empty⟩
    · cases present : changed.holdsAny with
      | true =>
        -- A value that holds something is left in an object that does, which stays.
        have has : left.has resolved.definition.name = true := by
          rw [Object.has, there]
          exact present
        exact .inl ((leaves.value?_of_has has).trans there)
      | false =>
        rcases leaves.value?_cases with read | dropped
        · exact .inl (read.trans there)
        · exact .inr ⟨dropped, rfl⟩
    · rcases leaves.value?_cases with read | dropped
      · exact .inr ⟨read.trans gone, empty⟩
      · exact .inr ⟨dropped, empty⟩

end Resolved

/-- **An operation touches only what its path names**: if the path resolves to an attribute and the
operation succeeds, everything in the resource that does not belong to that attribute is spared; and
if the path names a sub-attribute without a value filter, the other sub-attributes of a single value
are spared as well. -/
theorem patch_spares {limits : Limits} {view : View} {operation : PatchOperation} {path : PatchPath}
    {resolved : Resolved} {before after : Object}
    (done : patch limits view [operation] (.object before) = ⟨.object after, none⟩)
    (distinct : Json.isDistinct (.object before) = true)
    (isPath : operation.path = some path) (attributewise : path.wholeExtension? view = none)
    (bound : view.resolveAttribute? path.reference = some resolved) :
    resolved.Spares before after ∧
      ∀ sub, path.filter = none → Target.resolveSub resolved path.sub path.text = .ok (some sub) →
        resolved.definition.multiValued = false → resolved.SparesSub sub before after := by
  obtain ⟨_, same, applied⟩ := exists_of_patch_singleton done
  cases same
  obtain ⟨target, change, isTarget, _, applied⟩ :=
    PatchOperation.apply_eq_ok isPath attributewise applied
  obtain ⟨found, inner, boundFound, foundSub, _, rfl⟩ := Target.resolve_eq_ok isTarget
  rw [bound] at boundFound
  cases boundFound
  constructor
  · exact resolved.spares_of_applyTarget rfl rfl (Json.unambiguous_of_isDistinct distinct) applied
  · intro sub unfiltered isSub single
    rw [foundSub] at isSub
    cases isSub
    exact Resolved.sparesSub_of_applyTarget rfl rfl unfiltered rfl single distinct applied

/-- A sub-attribute of an attribute of an extension is removed: the other one stays under the key that
it has, and so does everything around it. -/
theorem patch_spares_card :
    let colour : Attribute := { name := "colour" }
    let card : Attribute :=
      { name := "card", type := .complex, subAttributes := [colour, { name := "size" }] }
    let extension : Schema := { id := "urn:b", attributes := [card, { name := "pin" }] }
    let view := View.ofSchemas { id := "urn:a", attributes := [{ name := "title" }] } [extension]
    let path : PatchPath := { reference := ⟨some "urn:b", "card", some "COLOUR"⟩ }
    let operation : PatchOperation := { verb := .remove, path := some path }
    let before : Object :=
      [("Title", .string "t"), ("URN:B", .object [("Card", .object [("SIZE", .string "s"),
          ("colour", .string "c")]), ("PIN", .string "1")])]
    let after : Object :=
      [("Title", .string "t"), ("URN:B", .object [("Card", .object [("SIZE", .string "s")]),
          ("PIN", .string "1")])]
    let resolved : Resolved := ⟨⟨.extension 0, extension⟩, card, some colour⟩
    patch {} view [operation] (.object before) = ⟨.object after, none⟩ ∧
      resolved.Spares before after ∧ resolved.SparesSub colour before after := by
  refine (and_iff_left_of_imp fun done => ?_).mpr rfl
  obtain ⟨spares, inner⟩ := patch_spares done (by decide) rfl rfl rfl
  exact ⟨spares, inner _ rfl rfl rfl⟩

end Scim
