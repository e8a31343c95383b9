import Scim.Patch.Apply
import Scim.Proofs.Except
import Scim.Proofs.View

/-!
# What operations consist of

Every operation, whatever its kind, is a row of two kinds of steps: a change to an attribute that a
schema of the view declares, and the removal of a whole extension. What each of these steps keeps,
every patch keeps, also one that fails part-way, as operations that fail change nothing.
-/

namespace Scim

variable {view : View} {before after : Object}

/-! ### Targets -/

/-- A target is an attribute that a schema of the view declares, in the object of that schema, or a
sub-attribute that the attribute declares; elements can be selected of an attribute that has some.
-/
structure Target.IsDeclared (target : Target) (view : View) (member : Member) : Prop where
  member_mem : member ∈ view.members
  container : target.container = member.key?
  definition : target.definition ∈ member.schema.attributes
  sub : ∀ sub, target.sub = some sub → sub ∈ target.definition.subAttributes
  filter : target.filter.isSome = true →
    target.definition.multiValued = true ∧ target.definition.isComplex = true

/-- The sub-attribute is that of the reference, or the one that the name behind a filter finds. -/
theorem Target.resolveSub_eq_ok {resolved : Resolved} {sub : Option String} {path : String}
    {inner : Option Attribute} (found : Target.resolveSub resolved sub path = .ok inner) :
    sub = none ∧ inner = resolved.sub ∨
      ∃ name definition, sub = some name ∧ resolved.definition.sub? name = some definition ∧
        inner = some definition := by
  unfold Target.resolveSub at found
  split at found
  · cases found
    exact .inl ⟨rfl, rfl⟩
  next name =>
    split at found
    next definition named =>
      cases found
      exact .inr ⟨name, definition, rfl, named, rfl⟩
    · cases found

/-- What a reference, a value filter and the name behind it are bound to. -/
theorem Target.resolve_eq_ok {reference : Reference} {filter : Option Filter} {sub : Option String}
    {path : String} {target : Target}
    (bound : Target.resolve view reference filter sub path = .ok target) :
    ∃ resolved inner, view.resolveAttribute? reference = some resolved ∧
      Target.resolveSub resolved sub path = .ok inner ∧
      (filter.isSome = true →
        resolved.definition.multiValued = true ∧ resolved.definition.isComplex = true) ∧
      target = ⟨path, resolved.member.key?, resolved.definition, filter, inner⟩ := by
  unfold Target.resolve at bound
  cases found : view.resolveAttribute? reference with
  | none =>
    rw [found] at bound
    cases bound
  | some resolved =>
    rw [found] at bound
    obtain ⟨inner, foundSub, made⟩ := bind_eq_ok_iff.mp bound
    split at made
    · cases made
    next applicable =>
      cases made
      refine ⟨resolved, inner, rfl, foundSub, fun filtered => ?_, rfl⟩
      simpa [filtered] using applicable

theorem Target.isDeclared_of_resolve {reference : Reference} {filter : Option Filter}
    {sub : Option String} {path : String} {target : Target}
    (bound : Target.resolve view reference filter sub path = .ok target) :
    ∃ member, target.IsDeclared view member := by
  obtain ⟨resolved, inner, found, foundSub, applicable, rfl⟩ := Target.resolve_eq_ok bound
  obtain ⟨member_mem, declared⟩ := View.resolveAttribute?_eq_some found
  refine ⟨resolved.member, member_mem, rfl, declared, fun sub same => ?_, applicable⟩
  obtain rfl : inner = some sub := same
  rcases Target.resolveSub_eq_ok foundSub with ⟨_, ofReference⟩ | ⟨name, definition, _, named, found⟩
  · have declaredSub := View.resolveAttribute?_sub found
    obtain ⟨name, _, named⟩ := Option.bind_eq_some_iff.mp (declaredSub.symm.trans ofReference.symm)
    exact (Attribute.find?_eq_some named).1
  · cases found
    exact (Attribute.find?_eq_some named).1

namespace Target.IsDeclared

variable {target : Target} {member : Member}

theorem eq_baseMember (declared : target.IsDeclared view member) (atTop : target.container = none) :
    member = view.baseMember :=
  View.eq_baseMember_of_key? declared.member_mem (declared.container.symm.trans atTop)

theorem mem_extensionMembers (declared : target.IsDeclared view member) {urn : String}
    (place : target.container = some urn) : member ∈ view.extensionMembers ∧ member.schema.id = urn :=
  View.mem_extensionMembers_of_key? declared.member_mem (declared.container.symm.trans place)

end Target.IsDeclared

/-! ### The object of an extension -/

section Extension

variable {urn : String}

theorem inSlot_eq_ok_iff {step : PatchStep Unit} :
    inSlot urn step before = .ok () after ↔
      ∃ container changed, before.slot? urn = some (.object container) ∧
        step container = .ok () changed ∧ before.replaceSlot urn (.object changed) = after := by
  unfold inSlot
  split
  next container stored =>
    cases result : step container with
    | ok done changed => simp [stored, result]
    | error error changed => simp [stored, result]
  next noObject =>
    simp only [reduceCtorEq, false_iff]
    rintro ⟨container, changed, stored, _⟩
    exact noObject container stored

/-- A step in an extension is not taken if there is no object to take it in, and none is to be made.
Otherwise it changes the object that is there or has been made, and the object is dropped if nothing
is left in it. -/
theorem inExtension_eq_ok {create : Bool} {absent step : PatchStep Unit}
    (done : inExtension urn create absent step before = .ok () after) :
    ((before.attribute? urn).all Json.isNull = true ∧ create = false ∧ absent before = .ok () after) ∨
      ∃ ready container changed,
        (if (before.attribute? urn).all Json.isNull then createExtension urn before else before) = ready ∧
        ((before.attribute? urn).all Json.isNull = true → create = true) ∧
        ready.slot? urn = some (.object container) ∧ step container = .ok () changed ∧
        tidyExtension (ready.replaceSlot urn (.object changed)) urn = after := by
  simp only [inExtension, step_bind_eq_ok_iff, step_get_eq_ok_iff] at done
  obtain ⟨_, _, ⟨rfl, rfl⟩, done⟩ := done
  split at done
  next skipped =>
    obtain ⟨missing, notMade⟩ := Bool.and_eq_true_iff.mp skipped
    exact .inl ⟨missing, by simpa using notMade, done⟩
  next taken =>
    simp only [step_bind_eq_ok_iff, step_modify_eq_ok_iff] at done
    obtain ⟨_, ready, isReady, _, _, inside, tidied⟩ := done
    obtain ⟨container, changed, stored, stepped, rfl⟩ := inSlot_eq_ok_iff.mp inside
    refine .inr ⟨ready, container, changed, isReady, fun missing => ?_, stored, stepped, tidied⟩
    simpa [missing] using taken

end Extension

/-! ### Changes to targets -/

section Change

variable {target : Target} {change : Change}

/-- What a change to a target does to a resource if it succeeds. At the top level it changes the resource
itself. In an extension it changes the object that is there, or has been made for what is written, and
the object is dropped if nothing is left in it; a removal is passed over where there is no object. -/
inductive Target.Applies (target : Target) (change : Change) (before : Object) : Object → Prop
  | atTop {after : Object} : target.container = none →
    applyInContainer target change before = .ok () after → Applies target change before after
  | skipped {urn : String} : target.container = some urn → target.filter = none →
    change.value? = none → (before.attribute? urn).all Json.isNull = true →
    Applies target change before before
  | inside {urn : String} {ready container changed : Object} : target.container = some urn →
    (if (before.attribute? urn).all Json.isNull then createExtension urn before else before) = ready →
    ((before.attribute? urn).all Json.isNull = true → change.value?.isSome = true) →
    ready.slot? urn = some (.object container) →
    applyInContainer target change container = .ok () changed →
    Applies target change before (tidyExtension (ready.replaceSlot urn (.object changed)) urn)

/-- A change to a target that succeeds has passed its checks first. -/
theorem applyTarget_applies (applied : applyTarget target change before = .ok () after) :
    target.checkFilter change = .ok () ∧ target.checkValue change = .ok () ∧
      target.Applies change before after := by
  simp only [applyTarget, step_bind_eq_ok_iff, step_check_eq_ok_iff] at applied
  obtain ⟨_, _, ⟨filterOk, rfl⟩, _, _, ⟨valueOk, rfl⟩, applied⟩ := applied
  refine ⟨filterOk, valueOk, ?_⟩
  cases place : target.container with
  | none =>
    rw [place] at applied
    exact .atTop place applied
  | some urn =>
    rw [place] at applied
    rcases inExtension_eq_ok applied with
      ⟨missing, notMade, skipped⟩ | ⟨ready, container, changed, isReady, creates, slot, stepped, rfl⟩
    · -- Only where nothing is selected can a change be passed over.
      split at skipped
      · exact absurd skipped step_throw_ne_ok
      next unfiltered =>
        obtain ⟨_, rfl⟩ := step_pure_eq_ok_iff.mp skipped
        exact .skipped place (by simpa using unfiltered) (by simpa using notMade) missing
    · exact .inside place isReady creates slot stepped

end Change

/-! ### Operations -/

/-- What an operation writes: its value, unless that is `null` or the operation removes. -/
def PatchOperation.written? (operation : PatchOperation) : Option Json :=
  if operation.verb = .remove then none else operation.value.filter (!·.isNull)

theorem Change.value?_of_ofOperation {operation : PatchOperation} {path : String} {change : Change}
    (made : Change.ofOperation operation.verb operation.value path = .ok change) :
    change.value? = operation.written? := by
  unfold Change.ofOperation at made
  unfold PatchOperation.written?
  split at made
  next verb written =>
    cases made
    rw [verb, written]
    rfl
  · cases made
  next verb written =>
    cases made
    rw [verb, written]
    rfl
  next verb nothing =>
    cases made
    rw [verb, nothing]
    rfl
  next verb =>
    cases made
    rw [verb]
    rfl

/-- Only a value that is not `null` is added. -/
theorem Change.eq_add_of_ofOperation {operation : PatchOperation} {path : String} {change : Change}
    (isAdd : operation.verb = .add)
    (made : Change.ofOperation operation.verb operation.value path = .ok change) :
    ∃ value, operation.value = some value ∧ value.isNull = false ∧ change = .add value := by
  rw [isAdd] at made
  unfold Change.ofOperation at made
  cases written : operation.value.filter (!·.isNull) with
  | none =>
    rw [written] at made
    cases made
  | some value =>
    rw [written] at made
    cases made
    obtain ⟨isValue, notNull⟩ := Option.filter_eq_some_iff.mp written
    exact ⟨value, isValue, by simpa using notNull, rfl⟩

/-- An operation on a path that does not stand for a whole extension changes what the path is bound
to. -/
theorem PatchOperation.apply_eq_ok_iff {operation : PatchOperation} {path : PatchPath}
    (isPath : operation.path = some path) (attributewise : path.wholeExtension? view = none) :
    operation.apply view before = .ok () after ↔ ∃ target change,
      Target.resolve view path.reference path.filter path.sub path.text = .ok target ∧
        Change.ofOperation operation.verb operation.value target.path = .ok change ∧
          applyTarget target change before = .ok () after := by
  simp only [apply, isPath, attributewise, step_bind_eq_ok_iff, step_check_eq_ok_iff]
  constructor
  · rintro ⟨target, _, ⟨bound, rfl⟩, change, _, ⟨made, rfl⟩, applied⟩
    exact ⟨target, change, bound, made, applied⟩
  · rintro ⟨target, change, bound, made, applied⟩
    exact ⟨target, _, ⟨bound, rfl⟩, change, _, ⟨made, rfl⟩, applied⟩

theorem PatchOperation.apply_eq_ok {operation : PatchOperation} {path : PatchPath}
    (isPath : operation.path = some path) (attributewise : path.wholeExtension? view = none)
    (applied : operation.apply view before = .ok () after) :
    ∃ target change,
      Target.resolve view path.reference path.filter path.sub path.text = .ok target ∧
        Change.ofOperation operation.verb operation.value target.path = .ok change ∧
          applyTarget target change before = .ok () after :=
  (apply_eq_ok_iff isPath attributewise).mp applied

/-- An operation whose path is bound to an attribute changes that attribute, in its place. -/
theorem PatchOperation.exists_target_of_apply {operation : PatchOperation} {path : PatchPath}
    {resolved : Resolved} (isPath : operation.path = some path)
    (attributewise : path.wholeExtension? view = none)
    (bound : view.resolveAttribute? path.reference = some resolved)
    (applied : operation.apply view before = .ok () after) :
    ∃ sub change, Target.resolveSub resolved path.sub path.text = .ok sub ∧
      Target.resolve view path.reference path.filter path.sub path.text =
        .ok ⟨path.text, resolved.member.key?, resolved.definition, path.filter, sub⟩ ∧
      Change.ofOperation operation.verb operation.value path.text = .ok change ∧
      applyTarget ⟨path.text, resolved.member.key?, resolved.definition, path.filter, sub⟩ change before =
        .ok () after := by
  obtain ⟨target, change, isTarget, made, applied⟩ := apply_eq_ok isPath attributewise applied
  obtain ⟨found, sub, boundFound, foundSub, _, rfl⟩ := Target.resolve_eq_ok isTarget
  obtain rfl := Option.some.inj (bound.symm.trans boundFound)
  exact ⟨sub, change, foundSub, isTarget, made, applied⟩

/-- A value filter never stands behind a whole extension. -/
theorem PatchPath.wholeExtension?_of_filter {path : PatchPath} {filter : Filter}
    (filtered : path.filter = some filter) : path.wholeExtension? view = none := by
  unfold PatchPath.wholeExtension?
  rw [filtered]

/-- Wherever the step succeeds, the resource before it is related to the one after it. -/
def PatchStep.Relates (related : Object → Object → Prop) (step : PatchStep Unit) : Prop :=
  ∀ before after, step before = .ok () after → related before after

theorem PatchPath.wholeExtension?_eq_some {path : PatchPath} {extension : Schema}
    (whole : path.wholeExtension? view = some extension) :
    ∃ member ∈ view.extensionMembers, member.schema = extension := by
  unfold PatchPath.wholeExtension? at whole
  split at whole
  next member _ resolved =>
    cases whole
    exact ⟨member, View.resolve?_eq_extension resolved, rfl⟩
  · cases whole

/-! ### What an operation writes -/

/-- What the value of an entry is written to, by the path that the entry stands under; `null` is never
written. -/
def View.WritesEntry (view : View) (path : String) (value : Json) (target : Target) : Prop :=
  value.isNull = false ∧ ∃ reference, Reference.parse path = .ok reference ∧
    Target.resolve view reference none none path = .ok target

/-- The values that an operation writes, and what each of them is written to. An operation writes its
value to what its path is bound to. Where it has no path, or that of a whole extension, it writes the
entries of its value, each under a path of its own; an entry under the URN of an extension holds
entries again. -/
inductive PatchOperation.Writes (view : View) (operation : PatchOperation) : Target → Json → Prop
  | atPath {path : PatchPath} {target : Target} {value : Json} :
    operation.path = some path → path.wholeExtension? view = none →
    Target.resolve view path.reference path.filter path.sub path.text = .ok target →
    operation.written? = some value → Writes view operation target value
  | inExtension {path : PatchPath} {extension : Schema} {entries : Object} {key : String}
    {target : Target} {value : Json} :
    operation.path = some path → path.wholeExtension? view = some extension →
    operation.written? = some (.object entries) → (key, value) ∈ entries →
    view.WritesEntry (extension.id ++ ":" ++ key) value target → Writes view operation target value
  | entry {entries : Object} {key : String} {target : Target} {value : Json} :
    operation.path = none → operation.value = some (.object entries) → (key, value) ∈ entries →
    Text.sameName key "schemas" = false → view.extensionFor? key = none →
    view.WritesEntry key value target → Writes view operation target value
  | extensionEntry {entries fields : Object} {key field : String} {extension : Member}
    {target : Target} {value : Json} :
    operation.path = none → operation.value = some (.object entries) →
    (key, .object fields) ∈ entries → Text.sameName key "schemas" = false →
    view.extensionFor? key = some extension → (field, value) ∈ fields →
    view.WritesEntry (extension.schema.id ++ ":" ++ field) value target →
    Writes view operation target value

/-- A relation that every step of an operation keeps, if what is written is admitted. -/
structure View.IsKeptWhere (view : View) (admits : Target → Json → Prop)
    (related : Object → Object → Prop) : Prop where
  refl : ∀ resource, related resource resource
  trans : ∀ {before between after}, related before between → related between after →
    related before after
  /-- A change to an attribute keeps the relation. -/
  change : ∀ {target change member}, Target.IsDeclared target view member →
    (∀ value, change.value? = some value → admits target value) →
    PatchStep.Relates related (applyTarget target change)
  /-- So does the removal of an extension. -/
  removal : ∀ {member}, member ∈ view.extensionMembers →
    PatchStep.Relates related (removeExtension member.schema)

namespace View.IsKeptWhere

open PatchStep

variable {admits : Target → Json → Prop} {related : Object → Object → Prop}

theorem pure (kept : view.IsKeptWhere admits related) : Relates related (pure ()) := by
  intro before after done
  obtain ⟨_, rfl⟩ := step_pure_eq_ok_iff.mp done
  exact kept.refl before

theorem throw (error : PatchError) : Relates related (throw error) :=
  fun _ _ done => absurd done step_throw_ne_ok

/-- A loop of steps keeps what each of them keeps. -/
theorem forM (kept : view.IsKeptWhere admits related) {entries : Object}
    {step : String × Json → PatchStep Unit} (each : ∀ entry ∈ entries, Relates related (step entry)) :
    Relates related (entries.forM step) := by
  induction entries with
  | nil => exact kept.pure
  | cons entry rest ih =>
    obtain ⟨head, tail⟩ := List.forall_mem_cons.mp each
    intro before after done
    -- The rest starts from what the first entry has left.
    obtain ⟨_, between, first, others⟩ := step_bind_eq_ok_iff.mp done
    exact kept.trans (head before between first) (ih tail between after others)

/-- An operation changes what a path is bound to. -/
theorem bound (kept : view.IsKeptWhere admits related) {reference : Reference}
    {filter : Option Filter} {sub : Option String} {path : String} (operation : PatchOperation)
    (report : Target → String)
    (admitted : ∀ target value, Target.resolve view reference filter sub path = .ok target →
      operation.written? = some value → admits target value) :
    Relates related (do
      let target ← ofExcept (Target.resolve view reference filter sub path)
      let change ← ofExcept (Change.ofOperation operation.verb operation.value (report target))
      applyTarget target change) := by
  intro before after done
  simp only [step_bind_eq_ok_iff, step_check_eq_ok_iff] at done
  obtain ⟨target, _, ⟨bound, rfl⟩, change, _, ⟨made, rfl⟩, applied⟩ := done
  obtain ⟨member, declared⟩ := Target.isDeclared_of_resolve bound
  refine kept.change declared (fun value written => ?_) before after applied
  exact admitted target value bound ((Change.value?_of_ofOperation made).symm.trans written)

theorem entry (kept : view.IsKeptWhere admits related) (verb : PatchVerb) (path : String)
    (value : Json) (admitted : ∀ target, view.WritesEntry path value target → admits target value) :
    Relates related (applyEntry view verb path value) := by
  unfold applyEntry
  split
  · exact kept.pure
  · split
    · exact throw _
    next reference parsed =>
      refine kept.bound { verb, value := some value } (fun _ => path) ?_
      intro target other bound written
      -- What an entry writes is its value.
      obtain ⟨same, notNull⟩ := Option.filter_eq_some_iff.mp (Option.ite_none_left_eq_some.mp written).2
      cases same
      exact admitted target ⟨by simpa using notNull, reference, parsed, bound⟩

theorem extensionEntries (kept : view.IsKeptWhere admits related) (verb : PatchVerb) (urn : String)
    (entries : Object)
    (admitted : ∀ key value, (key, value) ∈ entries →
      ∀ target, view.WritesEntry (urn ++ ":" ++ key) value target → admits target value) :
    Relates related (applyExtensionEntries view verb urn entries) :=
  kept.forM fun entry member =>
    kept.entry verb (urn ++ ":" ++ entry.1) entry.2 (admitted entry.1 entry.2 member)

theorem topEntry (kept : view.IsKeptWhere admits related) (verb : PatchVerb) (key : String)
    (value : Json)
    (admitted : Text.sameName key "schemas" = false → view.extensionFor? key = none →
      ∀ target, view.WritesEntry key value target → admits target value)
    (admittedInside : ∀ extension fields, Text.sameName key "schemas" = false →
      view.extensionFor? key = some extension → value = .object fields →
      ∀ field inside, (field, inside) ∈ fields →
      ∀ target, view.WritesEntry (extension.schema.id ++ ":" ++ field) inside target →
        admits target inside) :
    Relates related (applyTopEntry view verb key value) := by
  unfold applyTopEntry
  split
  · exact kept.pure
  next own =>
    have notSchemas := Bool.eq_false_iff.mpr own
    split
    next extension fields found =>
      exact kept.extensionEntries verb _ fields (admittedInside extension fields notSchemas found rfl)
    · exact throw _
    next noExtension => exact kept.entry verb key _ (admitted notSchemas noExtension)

theorem extension (kept : view.IsKeptWhere admits related) {member : Member}
    (member_mem : member ∈ view.extensionMembers) (operation : PatchOperation)
    (admitted : ∀ entries, operation.written? = some (.object entries) →
      ∀ key value, (key, value) ∈ entries →
      ∀ target, view.WritesEntry (member.schema.id ++ ":" ++ key) value target →
        admits target value) :
    Relates related (applyExtension view operation.verb member.schema operation.value) := by
  intro before after done
  simp only [applyExtension, step_bind_eq_ok_iff, step_check_eq_ok_iff] at done
  obtain ⟨change, _, ⟨made, rfl⟩, done⟩ := done
  rw [Change.value?_of_ofOperation made] at done
  cases written : operation.written? with
  | none =>
    rw [written] at done
    exact kept.removal member_mem before after done
  | some value =>
    rw [written] at done
    cases value with
    | object entries =>
      exact kept.extensionEntries _ _ entries (admitted entries written) before after done
    | _ => exact absurd done step_throw_ne_ok

/-- An operation that succeeds keeps the relation, whatever kind of operation it is, if what it writes
is admitted. -/
theorem operation (kept : view.IsKeptWhere admits related) (operation : PatchOperation)
    (admitted : ∀ target value, operation.Writes view target value → admits target value) :
    Relates related (operation.apply view) := by
  unfold PatchOperation.apply
  split
  next noPath =>
    split
    · exact throw _
    · split
      next entries isValue =>
        refine kept.forM fun entry member => kept.topEntry operation.verb entry.1 entry.2 ?_ ?_
        · intro notSchemas noExtension target writes
          exact admitted target _ (.entry noPath isValue member notSchemas noExtension writes)
        · intro extension fields notSchemas found same field inside inFields target writes
          have nested : (entry.1, .object fields) ∈ entries := same ▸ member
          exact admitted target inside
            (.extensionEntry noPath isValue nested notSchemas found inFields writes)
      · exact throw _
  next path _ isPath =>
    split
    next extension whole =>
      obtain ⟨member, member_mem, rfl⟩ := PatchPath.wholeExtension?_eq_some whole
      refine kept.extension member_mem operation fun entries written key value inEntries target writes => ?_
      exact admitted target value (.inExtension isPath whole written inEntries writes)
    next attributewise =>
      refine kept.bound operation Target.path fun target value bound written => ?_
      exact admitted target value (.atPath isPath attributewise bound written)

/-- The operations that are applied before the first failure keep the relation. -/
theorem operations (kept : view.IsKeptWhere admits related) (resource : Object)
    (operations : List PatchOperation)
    (admitted : ∀ operation ∈ operations, ∀ target value, operation.Writes view target value →
      admits target value) :
    ∃ final, (PatchOutcome.ofOperations view (.object resource) operations).resource = .object final ∧
      related resource final := by
  induction operations generalizing resource with
  | nil => exact ⟨resource, rfl, kept.refl resource⟩
  | cons operation rest ih =>
    obtain ⟨first, others⟩ := List.forall_mem_cons.mp admitted
    rw [PatchOutcome.ofOperations, PatchOperation.applyToValue]
    cases applied : operation.apply view resource with
    | ok done changed =>
      obtain ⟨final, reached, remaining⟩ := ih changed others
      have step := kept.operation operation first resource changed applied
      exact ⟨final, reached, kept.trans step remaining⟩
    | error error changed =>
      -- The half-changed copy is dropped, and the operations behind it are not tried.
      exact ⟨resource, rfl, kept.refl resource⟩

/-- What every step keeps, every patch keeps, whether it succeeds or not. -/
theorem patch (kept : view.IsKeptWhere admits related) (limits : Limits) (resource : Object)
    (operations : List PatchOperation)
    (admitted : ∀ operation ∈ operations, ∀ target value, operation.Writes view target value →
      admits target value) :
    ∃ final, (Scim.patch limits view operations (.object resource)).resource = .object final ∧
      related resource final := by
  unfold Scim.patch
  split
  · exact ⟨resource, rfl, kept.refl resource⟩
  · exact kept.operations resource operations admitted

end View.IsKeptWhere

/-- A relation that every step of an operation keeps. -/
structure View.IsKept (view : View) (related : Object → Object → Prop) : Prop where
  refl : ∀ resource, related resource resource
  trans : ∀ {before between after}, related before between → related between after →
    related before after
  /-- A change to an attribute keeps the relation. -/
  change : ∀ {target change member}, Target.IsDeclared target view member →
    PatchStep.Relates related (applyTarget target change)
  /-- So does the removal of an extension. -/
  removal : ∀ {member}, member ∈ view.extensionMembers →
    PatchStep.Relates related (removeExtension member.schema)

namespace View.IsKept

variable {related : Object → Object → Prop}

/-- Such a relation is kept whatever is written. -/
theorem isKeptWhere (kept : view.IsKept related) : view.IsKeptWhere (fun _ _ => True) related where
  refl := kept.refl
  trans := kept.trans
  change declared _ := kept.change declared
  removal := kept.removal

theorem operations (kept : view.IsKept related) (resource : Object)
    (operations : List PatchOperation) :
    ∃ final, (PatchOutcome.ofOperations view (.object resource) operations).resource = .object final ∧
      related resource final :=
  kept.isKeptWhere.operations resource operations fun _ _ _ _ _ => trivial

theorem patch (kept : view.IsKept related) (limits : Limits) (resource : Object)
    (operations : List PatchOperation) :
    ∃ final, (Scim.patch limits view operations (.object resource)).resource = .object final ∧
      related resource final :=
  kept.isKeptWhere.patch limits resource operations fun _ _ _ _ _ => trivial

end View.IsKept

end Scim
