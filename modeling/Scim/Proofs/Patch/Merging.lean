import Scim.Proofs.Patch.Replacing
import Scim.Proofs.Patch.Rewriting
import Scim.Proofs.Patch.Values

/-!
# Merging complex values

An object that is added to a single complex attribute, or replaces it, is merged into the object that
is stored. Its entries are taken one after the other: each of them sets the sub-attribute that its key
names, in whatever case, or clears it if it holds `null`. What is not named stays, and what has to stay
is not named.
-/

namespace Scim

open Object

/-! ### Entries that are merged -/

/-- A name holds what has been written under it, in this spelling and no other, or nothing. All other
entries stay. -/
def Object.Sets (name : String) (written : Option Json) (before after : Object) : Prop :=
  ∀ entry : String × Json, entry ∈ after ↔
    if Text.fold entry.1 = Text.fold name then entry.1 = name ∧ written = some entry.2
    else entry ∈ before

/-- The entries of the first object are merged into the second one in their order, which makes it the
third. -/
inductive Attribute.Merges (definition : Attribute) : Object → Object → Object → Prop
  | done {current : Object} : definition.Merges [] current current
  | entry {sub : Attribute} {key : String} {value : Json} {rest current next merged : Object} :
    definition.sub? key = some sub →
    Object.Sets sub.name (if value.isNull then none else some value) current next →
    definition.Merges rest next merged → definition.Merges ((key, value) :: rest) current merged

section Merging

variable {object current entries merged : Object} {name : String} {definition : Attribute}

theorem sets_of_named? {after : Object} {written : Option Json} (regular : object.Regular)
    (regularAfter : after.Regular)
    (each : ∀ other, after.named? other =
      if Text.fold other = Text.fold name then written.map (name, ·) else object.named? other) :
    Object.Sets name written object after := by
  intro entry
  rw [regularAfter.mem_iff, each]
  split
  next same => simp [Prod.ext_iff, eq_comm, and_comm]
  next different => exact regular.mem_iff.symm

theorem sets_setAttribute (regular : object.Regular) (name : String) (value : Json) :
    Object.Sets name (some value) object (object.setAttribute name value) :=
  sets_of_named? regular (regular.setAttribute name value) fun _ => regular.named?_setAttribute

theorem sets_removeAttribute (regular : object.Regular) (name : String) :
    Object.Sets name none object (object.removeAttribute name) :=
  sets_of_named? regular (regular.removeAttribute name) fun _ => regular.named?_removeAttribute

theorem merges_mergeEntries (regular : current.Regular)
    (known : ∀ entry ∈ entries, ∃ sub, definition.sub? entry.1 = some sub) :
    definition.Merges entries current (mergeEntries definition current entries) := by
  -- By induction on the entries, from whatever those before them have made.
  induction entries generalizing current with
  | nil => exact .done
  | cons head rest ih =>
    obtain ⟨key, value⟩ := head
    obtain ⟨⟨sub, named⟩, knownRest⟩ := List.forall_mem_cons.mp known
    rw [mergeEntries, named]
    cases isNull : value.isNull with
    | true =>
      refine .entry named ?_ (ih (regular.removeAttribute _) knownRest)
      rw [isNull]
      exact sets_removeAttribute regular sub.name
    | false =>
      refine .entry named ?_ (ih (regular.setAttribute _ _) knownRest)
      rw [isNull]
      exact sets_setAttribute regular sub.name value

/-- The entries and their order settle what they are merged to. -/
theorem Attribute.Merges.mem_iff_mem {other result : Object}
    (merges : definition.Merges entries current merged) (again : definition.Merges entries other result)
    (same : ∀ entry, entry ∈ current ↔ entry ∈ other) : ∀ entry, entry ∈ merged ↔ entry ∈ result := by
  induction merges generalizing other with
  | done =>
    cases again
    exact same
  | entry named sets _ ih =>
    -- A key names one sub-attribute, so that both have set the same one.
    cases again with
    | entry namedAgain setsAgain rest =>
      rw [named] at namedAgain
      cases namedAgain
      exact ih rest fun entry => by rw [sets entry, setsAgain entry, same entry]

/-- What is not named stays, in the spelling that it has. -/
theorem Attribute.Merges.mem_iff (merges : definition.Merges entries current merged)
    {entry : String × Json} (unnamed : ∀ key ∈ entries.keys, Text.fold key ≠ Text.fold entry.1) :
    entry ∈ merged ↔ entry ∈ current := by
  induction merges with
  | done => rfl
  | entry named sets _ ih =>
    obtain ⟨different, others⟩ := List.forall_mem_cons.mp unnamed
    have same := (Attribute.find?_eq_some named).2
    rw [ih others, sets entry, if_neg fun isSub => different (same.symm.trans isSub.symm)]

theorem Attribute.Merges.attribute?_eq (merges : definition.Merges entries current merged)
    (regular : current.Regular) (regularMerged : merged.Regular)
    (unnamed : ∀ key ∈ entries.keys, Text.fold key ≠ Text.fold name) :
    merged.attribute? name = current.attribute? name := by
  have same : merged.named? name = current.named? name := by
    ext entry
    rw [regularMerged.named?_eq_some_iff, regular.named?_eq_some_iff]
    refine and_congr_left fun isName => merges.mem_iff ?_
    rwa [isName]
  rw [regularMerged.attribute?_eq_named?, regular.attribute?_eq_named?, same]

end Merging

/-! ### The attribute afterwards -/

section Rewriting

variable {target : Target} {change : Change} {before after entries : Object}

theorem Target.Rewrites.of_single_object (unfiltered : target.filter = none) (whole : target.sub = none)
    (single : target.definition.multiValued = false) (complex : target.definition.isComplex = true)
    (written : change.value? = some (.object entries)) (rewrites : target.Rewrites change before after) :
    checkEntriesMutable target.definition
        (fun sub => (before.attribute? target.definition.name).any (Json.hasSub sub.name)) entries =
        .ok () ∧
      after = mergeInto target.definition entries before := by
  cases rewrites with
  | merged _ _ _ _ isObject allowed =>
    rw [written] at isObject
    cases isObject
    exact ⟨allowed, rfl⟩
  | removed _ _ isRemove =>
    subst isRemove
    cases written
  | added _ _ many | replaced _ _ many =>
    rw [single] at many
    cases many
  | overwritten _ _ _ simple =>
    rw [complex] at simple
    cases simple
  | untouched _ inner | subOfItems _ inner | subOfValue _ inner =>
    rw [whole] at inner
    cases inner
  | selected filtered =>
    rw [unfiltered] at filtered
    cases filtered

theorem attribute?_mergeInto (regular : before.Regular) (definition : Attribute) (entries : Object) :
    Object.attribute? (mergeInto definition entries before) definition.name =
      mergedValue definition entries (before.attribute? definition.name) := by
  rw [(regular.of_edits (mergeInto_edits definition entries before)).attribute?_eq_named?,
    named?_mergeInto regular, Option.map_map]
  exact Option.map_id'

end Rewriting

/-- A value that is not left unless it is present is read where the change has left it. -/
theorem Resolved.Leaves.value?_of_present {resolved : Resolved} {before left after : Object}
    (leaves : resolved.Leaves before left after)
    (present : ∀ value, left.attribute? resolved.definition.name = some value → value.isPresent = true) :
    resolved.value? after = left.attribute? resolved.definition.name := by
  cases stored : left.attribute? resolved.definition.name with
  | none => exact leaves.value?_cases.elim (·.trans stored) id
  | some value =>
    refine (leaves.value?_of_has ?_).trans stored
    rw [has, stored]
    exact present value stored

/-! ### Operations -/

/-- What merging the entries of an object into a complex attribute does to a resource. -/
structure Resolved.Merges (resolved : Resolved) (entries before after merged : Object) : Prop where
  /-- Every key names a sub-attribute that may be written, by what is stored anywhere in the value. -/
  allowed : ∀ key ∈ entries.keys, ∃ sub, resolved.definition.sub? key = some sub ∧
    checkMutable sub ((resolved.value? before).any (Json.hasSub sub.name)) = .ok ()
  merges : resolved.definition.Merges entries (storedObject (resolved.value? before)) merged
  regular : merged.Regular
  /-- Nothing else comes of it. -/
  unique : ∀ other : Object, resolved.definition.Merges entries (storedObject (resolved.value? before)) other →
    other.Sorted → other = merged
  value : resolved.value? after = if merged.holdsAny then some (.object merged) else none
  unnamed : ∀ entry : String × Json, (∀ key ∈ entries.keys, Text.fold key ≠ Text.fold entry.1) →
    (entry ∈ merged ↔ entry ∈ storedObject (resolved.value? before))
  lasting : ∀ sub ∈ resolved.definition.lastingSubs (storedObject (resolved.value? before)),
    Object.attribute? (storedObject (resolved.value? after)) sub.name =
      Object.attribute? (storedObject (resolved.value? before)) sub.name

section Operation

variable {view : View} {resolved : Resolved} {before after entries : Object}

/-- What has to stay in the stored object is not named by entries that have been accepted. -/
theorem ne_of_mem_lastingSubs {schema : Schema} {definition sub : Attribute} {stored : Option Json}
    (valid : schema.validate = .ok ()) (declared : definition ∈ schema.attributes)
    (checked : checkEntriesMutable definition (fun sub => stored.any (Json.hasSub sub.name)) entries =
      .ok ())
    (lasting : sub ∈ definition.lastingSubs (storedObject stored)) :
    ∀ key ∈ entries.keys, Text.fold key ≠ Text.fold sub.name := by
  obtain ⟨declaredSub, stays⟩ := List.mem_filter.mp lasting
  obtain ⟨isLasting, held⟩ := Bool.and_eq_true_iff.mp stays
  have present : stored.any (Json.hasSub sub.name) = true := by
    cases stored with
    | none => cases held
    | some value =>
      cases value with
      | object fields => exact held
      | _ => cases held
  exact ne_of_checkEntriesMutable valid declared declaredSub checked isLasting present

/-- What has been left of the object that holds the attribute is what merging makes of it. -/
theorem Resolved.merges_of_leaves (valid : resolved.member.schema.validate = .ok ())
    (declared : resolved.definition ∈ resolved.member.schema.attributes)
    (keyed : Json.IsKeyed (.object ((resolved.container? before).getD [])))
    (known : ∀ entry ∈ entries, ∃ sub, resolved.definition.sub? entry.1 = some sub)
    (checked : checkEntriesMutable resolved.definition
      (fun sub => (resolved.value? before).any (Json.hasSub sub.name)) entries = .ok ())
    (leaves : resolved.Leaves before
      (mergeInto resolved.definition entries ((resolved.container? before).getD [])) after) :
    resolved.Merges entries before after
      (mergeEntries resolved.definition (storedObject (resolved.value? before)) entries) := by
  have regular : (storedObject (resolved.value? before)).Regular :=
    resolved.value?_eq before ▸ regular_storedObject keyed resolved.definition.name
  have regularMerged : Object.Regular
      (mergeEntries resolved.definition (storedObject (resolved.value? before)) entries) :=
    regular_mergeEntries regular
  have merges : resolved.definition.Merges entries (storedObject (resolved.value? before))
      (mergeEntries resolved.definition (storedObject (resolved.value? before)) entries) :=
    merges_mergeEntries regular known
  have value : resolved.value? after =
      mergedValue resolved.definition entries (resolved.value? before) := by
    have left := attribute?_mergeInto (regular_of_isKeyed keyed) resolved.definition entries
    rw [← resolved.value?_eq before] at left
    refine (leaves.value?_of_present fun value there => ?_).trans left
    -- Nothing is left under the name unless something in it is present.
    have isMerged := left.symm.trans there
    simp only [mergedValue, Option.ite_none_right_eq_some, Option.some.injEq] at isMerged
    obtain ⟨present, rfl⟩ := isMerged
    exact present
  refine ⟨?allowed, merges, regularMerged, ?unique, value, fun entry => merges.mem_iff, ?lasting⟩
  case allowed =>
    intro key member
    obtain ⟨entry, inEntries, rfl⟩ := List.mem_map.mp member
    obtain ⟨sub, named⟩ := known entry inEntries
    exact ⟨sub, named, checkMutable_of_checkEntriesMutable checked inEntries named⟩
  case unique =>
    intro other mergesToo sorted
    exact sorted.eq_of_mem_iff regularMerged.sorted (mergesToo.mem_iff_mem merges fun _ => Iff.rfl)
  case lasting =>
    intro sub lasting
    have unnamed := ne_of_mem_lastingSubs valid declared checked lasting
    have stays := merges.attribute?_eq regular regularMerged unnamed
    -- What stays is present, and the attribute with it.
    have held := (Bool.and_eq_true_iff.mp (List.mem_filter.mp lasting).2).2
    rw [has, ← stays] at held
    rw [value, mergedValue, if_pos (holdsAny_of_has held)]
    exact stays

/-- **Complex values are merged sub-attribute by sub-attribute**: if an object is added to a single
complex attribute, or replaces it, the attribute holds afterwards what merging its entries, one after
the other, has made of the object that was stored, or is absent if nothing of that is present. What is
not named stays as long as the attribute does, and no sub-attribute that is read only or immutable and
has held something has changed. -/
theorem patch_merges (limits : Limits) (view : View) (operation : PatchOperation) (reference : Reference)
    (resolved : Resolved) (entries before after : Object)
    (valid : ∀ member ∈ view.members, member.schema.validate = .ok ())
    (ordered : Json.Ordered (.object before)) (distinct : Json.isDistinct (.object before) = true)
    (writes : operation.verb = .add ∨ operation.verb = .replace)
    (isPath : operation.path = some { reference }) (plain : reference.sub = none)
    (isValue : operation.value = some (.object entries))
    (bound : view.resolve? reference = some (.definition resolved))
    (single : resolved.definition.multiValued = false) (complex : resolved.definition.isComplex = true)
    (done : patch limits view [operation] (.object before) = ⟨.object after, none⟩) :
    ∃ merged, resolved.Merges entries before after merged := by
  have attributewise : PatchPath.wholeExtension? { reference } view = none := by
    simp only [PatchPath.wholeExtension?, bound]
  have isBound := View.resolve?_eq_definition bound
  have written : operation.written? = some (.object entries) := by
    rw [PatchOperation.written?, isValue]
    rcases writes with verb | verb <;> rw [verb] <;> rfl
  obtain ⟨_, same, applied⟩ := exists_of_patch_singleton done
  cases same
  obtain ⟨sub, change, foundSub, _, made, applied⟩ :=
    PatchOperation.exists_target_of_apply isPath attributewise isBound applied
  obtain rfl : sub = none := by
    have noSub := View.resolveAttribute?_sub isBound
    rw [plain] at noSub
    exact (Except.ok.inj foundSub).symm.trans noSub
  have isChange := (Change.value?_of_ofOperation made).trans written
  have keyed : Json.IsKeyed (.object ((resolved.container? before).getD [])) :=
    Json.IsKeyed.container ⟨ordered, distinct⟩ resolved
  obtain ⟨_, accepted, ⟨_, nothing, _⟩ | ⟨left, stepped, leaves⟩⟩ :=
    applyTarget_eq_ok rfl (Json.unambiguous_of_isDistinct distinct) applied
  · rw [isChange] at nothing
    cases nothing
  · obtain ⟨_, rewrites⟩ := applyInContainer_eq_ok stepped
    obtain ⟨checked, rfl⟩ := rewrites.of_single_object rfl rfl single complex isChange
    rw [← resolved.value?_eq before] at checked
    -- The value has been accepted, so that every key names a sub-attribute.
    simp only [Target.checkValue, isChange, single, Bool.false_eq_true, if_false] at accepted
    have typed := Attribute.checkEntries_eq_ok_iff.mp (Attribute.check_object_eq_ok_iff.mp accepted).2
    have known (entry : String × Json) (member : entry ∈ entries) :
        ∃ sub, resolved.definition.sub? entry.1 = some sub :=
      (typed entry member).imp fun _ named => named.1
    obtain ⟨member_mem, declared⟩ := View.resolveAttribute?_eq_some isBound
    exact ⟨_, resolved.merges_of_leaves (valid _ member_mem) declared keyed known checked leaves⟩

/-- A colour is written under two names, the second one in place of the first, and a note is cleared.
The number stays, as it has to. -/
theorem patch_merges_badge :
    let badge : Attribute :=
      { name := "badge", type := .complex
        subAttributes :=
          [{ name := "number", mutability := .immutable }, { name := "colour" }, { name := "note" }] }
    let extension : Schema := { id := "urn:b", attributes := [badge] }
    let view := View.ofSchemas { id := "urn:a", attributes := [{ name := "title" }] } [extension]
    let entries : Object := [("COLOUR", .string "blue"), ("Note", .null), ("colour", .string "green")]
    let operation : PatchOperation :=
      { verb := .add, path := some { reference := ⟨some "URN:b", "BADGE", none⟩ }
        value := some (.object entries) }
    let stored : Object := [("Colour", .string "red"), ("note", .string "x"), ("number", .string "7")]
    let left : Object := [("colour", .string "green"), ("number", .string "7")]
    let before : Object := [("URN:B", .object [("Badge", .object stored)])]
    let after : Object := [("URN:B", .object [("badge", .object left)])]
    patch {} view [operation] (.object before) = ⟨.object after, none⟩ ∧
      ∃ merged, Resolved.Merges ⟨⟨.extension 0, extension⟩, badge, none⟩ entries before after merged := by
  refine (and_iff_left_of_imp fun done => ?_).mpr rfl
  refine patch_merges {} _ _ _ ⟨⟨.extension 0, _⟩, _, none⟩ _ _ _ (by decide) ?ordered rfl (.inl rfl) rfl
    rfl rfl rfl rfl rfl done
  case ordered =>
    simp only [Json.Ordered, Json.OrderedEntries, Object.Sorted, and_true]
    decide

end Operation

end Scim
