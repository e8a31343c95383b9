import Scim.Proofs.Patch.Extension

/-!
# The list of schemas follows the extensions

A resource that lists in `schemas` the extensions that it has, and no others, does so after every
patch. The two can come apart for a moment only, inside a step that makes or drops an extension: what
is proved for each of them is that the entry of the extension and its URN in the list appear together
and go together. Entries of the list that name no extension stay where they are.
-/

namespace Scim

open Object

/-! ### Lists of URNs -/

/-- Some string in a list of schemas is a URN, in any ASCII case. -/
def ListsUrn (urns : List Json) (urn : String) : Prop :=
  ∃ text, .string text ∈ urns ∧ Text.fold text = Text.fold urn

section Lists

variable {urns : List Json} {urn other : String} {entry : Json}

theorem isUrn_iff : isUrn urn entry = true ↔ ∃ text, entry = .string text ∧ Text.fold text = Text.fold urn := by
  cases entry <;> simp [isUrn, Json.string?, Text.sameName_iff]

theorem listsUrn_iff : ListsUrn urns urn ↔ ∃ entry ∈ urns, isUrn urn entry = true := by
  simp only [isUrn_iff]
  constructor
  · rintro ⟨text, member, same⟩
    exact ⟨_, member, text, rfl, same⟩
  · rintro ⟨_, member, text, rfl, same⟩
    exact ⟨text, member, same⟩

instance (urns : List Json) (urn : String) : Decidable (ListsUrn urns urn) :=
  decidable_of_iff (∃ entry ∈ urns, isUrn urn entry = true) listsUrn_iff.symm

/-- An entry is the URN of one extension only. -/
theorem isUrn_eq_false (apart : Text.fold other ≠ Text.fold urn) (isUrn_urn : isUrn urn entry = true) :
    isUrn other entry = false := by
  obtain ⟨text, rfl, same⟩ := isUrn_iff.mp isUrn_urn
  refine Bool.eq_false_iff.mpr fun isOther => ?_
  obtain ⟨_, equal, sameOther⟩ := isUrn_iff.mp isOther
  cases equal
  exact apart (sameOther.symm.trans same)

/-- The list with a URN in it. -/
abbrev registered (urn : String) (urns : List Json) : List Json :=
  if urns.any (isUrn urn) then urns else urns ++ [.string urn]

/-- The list without a URN. -/
abbrev unregistered (urn : String) (urns : List Json) : List Json := urns.filter (!isUrn urn ·)

theorem listsUrn_registered :
    ListsUrn (registered urn urns) other ↔ Text.fold other = Text.fold urn ∨ ListsUrn urns other := by
  unfold registered
  split
  next listed =>
    refine ⟨.inr, ?_⟩
    rintro (same | lists)
    · obtain ⟨text, member, sameText⟩ := listsUrn_iff.mpr (List.any_eq_true.mp listed)
      exact ⟨text, member, sameText.trans same.symm⟩
    · exact lists
  next =>
    constructor
    · rintro ⟨text, member, same⟩
      rcases List.mem_append.mp member with old | new
      · exact .inr ⟨text, old, same⟩
      · cases List.mem_singleton.mp new
        exact .inl same.symm
    · rintro (same | ⟨text, member, sameText⟩)
      · exact ⟨urn, List.mem_append_right _ (List.mem_singleton_self _), same.symm⟩
      · exact ⟨text, List.mem_append_left _ member, sameText⟩

theorem listsUrn_unregistered :
    ListsUrn (unregistered urn urns) other ↔ Text.fold other ≠ Text.fold urn ∧ ListsUrn urns other := by
  constructor
  · rintro ⟨text, member, same⟩
    obtain ⟨inList, kept⟩ := List.mem_filter.mp member
    refine ⟨fun sameUrn => ?_, text, inList, same⟩
    have dropped : isUrn urn (.string text) = true := isUrn_iff.mpr ⟨text, rfl, same.trans sameUrn⟩
    simp [dropped] at kept
  · rintro ⟨apart, text, member, same⟩
    have isOther : isUrn other (.string text) = true := isUrn_iff.mpr ⟨text, rfl, same⟩
    have kept := isUrn_eq_false (Ne.symm apart) isOther
    exact ⟨text, List.mem_filter.mpr ⟨member, by simp [kept]⟩, same⟩

end Lists

/-! ### What a change to the list keeps -/

/-- The entries of a list of schemas that are the URN of no extension. -/
def View.foreign (view : View) (urns : List Json) : List Json :=
  urns.filter fun entry => !view.extensionMembers.any fun member => isUrn member.schema.id entry

/-- The entries that name no extension are the same as before, and no extension is listed twice that
was not. -/
structure View.KeepsEntries (view : View) (before after : List Json) : Prop where
  foreign : view.foreign after = view.foreign before
  twice : ∀ member ∈ view.extensionMembers, 2 ≤ after.countP (isUrn member.schema.id) →
    2 ≤ before.countP (isUrn member.schema.id)

variable {view : View} {member : Member} {urns : List Json} {before between after : Object}

namespace View.KeepsEntries

theorem refl (urns : List Json) : view.KeepsEntries urns urns := ⟨rfl, fun _ _ twice => twice⟩

theorem trans {first second third : List Json} (one : view.KeepsEntries first second)
    (two : view.KeepsEntries second third) : view.KeepsEntries first third :=
  ⟨two.foreign.trans one.foreign, fun member member_mem twice =>
    one.twice member member_mem (two.twice member member_mem twice)⟩

theorem registered (member_mem : member ∈ view.extensionMembers) (urns : List Json) :
    view.KeepsEntries urns (registered member.schema.id urns) := by
  unfold Scim.registered
  split
  · exact .refl urns
  next unlisted =>
    have isItself : isUrn member.schema.id (.string member.schema.id) = true :=
      isUrn_iff.mpr ⟨_, rfl, rfl⟩
    constructor
    · -- What is appended names an extension.
      have named : (view.extensionMembers.any fun other =>
          isUrn other.schema.id (.string member.schema.id)) = true :=
        List.any_eq_true.mpr ⟨member, member_mem, isItself⟩
      simp [View.foreign, List.filter_append, named]
    · intro other other_mem twice
      by_cases same : Text.fold member.schema.id = Text.fold other.schema.id
      · -- The extension was not listed, so it is listed once.
        have none : urns.countP (isUrn other.schema.id) = 0 := by
          rw [List.countP_eq_zero]
          intro entry inList isOther
          obtain ⟨text, rfl, sameText⟩ := isUrn_iff.mp isOther
          exact unlisted (List.any_eq_true.mpr
            ⟨_, inList, isUrn_iff.mpr ⟨text, rfl, sameText.trans same.symm⟩⟩)
        rw [List.countP_append, none, List.countP_singleton] at twice
        split at twice <;> omega
      · have notOther := isUrn_eq_false (Ne.symm same) isItself
        simpa [List.countP_append, notOther] using twice

theorem unregistered (member_mem : member ∈ view.extensionMembers) (urns : List Json) :
    view.KeepsEntries urns (unregistered member.schema.id urns) := by
  constructor
  · rw [View.foreign, View.foreign, List.filter_filter]
    refine List.filter_congr fun entry _ => ?_
    -- An entry that is dropped names an extension.
    cases isItself : isUrn member.schema.id entry with
    | false => simp
    | true =>
      have named : (view.extensionMembers.any fun other => isUrn other.schema.id entry) = true :=
        List.any_eq_true.mpr ⟨member, member_mem, isItself⟩
      simp [named]
  · intro other _ twice
    exact Nat.le_trans twice (List.filter_sublist.countP_le)

end View.KeepsEntries

/-! ### Lists that agree with the resource -/

/-- Something other than `null` stands under the URN of an extension. -/
def Object.HasExtension (resource : Object) (urn : String) : Prop :=
  ∃ value, resource.attribute? urn = some value ∧ value.isNull = false

/-- The list of schemas of a resource names the extensions that the resource has, and no others. -/
structure View.Agrees (view : View) (resource : Object) (urns : List Json) : Prop where
  stored : resource.attribute? "schemas" = some (.array urns)
  listed : ∀ member ∈ view.extensionMembers,
    resource.HasExtension member.schema.id ↔ ListsUrn urns member.schema.id

/-- The list follows an extension if it is as it was, as the extension is, or if it names the extension
now exactly if the extension is there. -/
def FollowsExtension (before after : Object) (urns left : List Json) (urn : String) : Prop :=
  ((after.HasExtension urn ↔ before.HasExtension urn) ∧ (ListsUrn left urn ↔ ListsUrn urns urn)) ∨
    (after.HasExtension urn ↔ ListsUrn left urn)

/-- If there is a list, there still is one, which has followed all extensions. -/
structure View.FollowsListing (view : View) (before after : Object) : Prop where
  unambiguous : after.Unambiguous
  listing : ∀ urns, before.attribute? "schemas" = some (.array urns) →
    ∃ left, after.attribute? "schemas" = some (.array left) ∧ view.KeepsEntries urns left ∧
      ∀ member ∈ view.extensionMembers, FollowsExtension before after urns left member.schema.id

namespace FollowsExtension

variable {urn : String} {listed left : List Json}

theorem trans (first : FollowsExtension before between urns listed urn)
    (second : FollowsExtension between after listed left urn) :
    FollowsExtension before after urns left urn := by
  rcases second with ⟨sameEntry, sameList⟩ | agrees
  · rcases first with ⟨sameEntryFirst, sameListFirst⟩ | agrees
    · exact .inl ⟨sameEntry.trans sameEntryFirst, sameList.trans sameListFirst⟩
    · exact .inr ((sameEntry.trans agrees).trans sameList.symm)
  · exact .inr agrees

/-- Where the list was right about the extension it is right again. -/
theorem agrees (follows : FollowsExtension before after urns left urn)
    (agreed : before.HasExtension urn ↔ ListsUrn urns urn) :
    after.HasExtension urn ↔ ListsUrn left urn := by
  rcases follows with ⟨sameEntry, sameList⟩ | agrees
  · exact (sameEntry.trans agreed).trans sameList.symm
  · exact agrees

end FollowsExtension

namespace Object.HasExtension

variable {resource : Object} {urn : String}

theorem congr (same : after.attribute? urn = before.attribute? urn) :
    after.HasExtension urn ↔ before.HasExtension urn := by
  unfold HasExtension
  rw [same]

/-- An extension is there unless it counts as missing. -/
theorem iff_not_missing :
    resource.HasExtension urn ↔ ¬(resource.attribute? urn).all Json.isNull = true := by
  unfold HasExtension
  cases resource.attribute? urn <;> simp

instance (resource : Object) (urn : String) : Decidable (resource.HasExtension urn) :=
  decidable_of_iff _ iff_not_missing.symm

end Object.HasExtension

theorem attribute?_schemas_changeSchemas (unambiguous : before.Unambiguous)
    (stored : before.attribute? "schemas" = some (.array urns)) (change : List Json → List Json) :
    Object.attribute? (changeSchemas before change) "schemas" = some (.array (change urns)) := by
  have slot := (slot?_eq_attribute? unambiguous).trans stored
  unfold changeSchemas
  rw [slot]
  exact attribute?_replaceSlot_self unambiguous stored

namespace View.FollowsListing

theorem refl (unambiguous : before.Unambiguous) : view.FollowsListing before before :=
  ⟨unambiguous, fun urns stored =>
    ⟨urns, stored, .refl urns, fun _ _ => .inl ⟨Iff.rfl, Iff.rfl⟩⟩⟩

theorem trans (first : view.FollowsListing before between)
    (second : view.FollowsListing between after) : view.FollowsListing before after := by
  refine ⟨second.unambiguous, fun urns stored => ?_⟩
  obtain ⟨listed, storedBetween, kept, follows⟩ := first.listing urns stored
  obtain ⟨left, storedAfter, keptAgain, followsAgain⟩ := second.listing listed storedBetween
  exact ⟨left, storedAfter, kept.trans keptAgain, fun member member_mem =>
    (follows member member_mem).trans (followsAgain member member_mem)⟩

/-- A change somewhere else, by which no extension appears and none goes. -/
theorem ofChanges {name : String} (changes : ChangesOnly name before after)
    (notSchemas : Text.fold name ≠ Text.fold "schemas")
    (same : ∀ member ∈ view.extensionMembers,
      after.HasExtension member.schema.id ↔ before.HasExtension member.schema.id) :
    view.FollowsListing before after := by
  refine ⟨changes.unambiguous, fun urns stored => ⟨urns, ?_, .refl urns, fun member member_mem => ?_⟩⟩
  · rw [changes.others "schemas" (Ne.symm notSchemas)]
    exact stored
  · exact .inl ⟨same member member_mem, Iff.rfl⟩

/-- A change to the entry of an extension together with a change to the list, if the extension is
there afterwards if and only if it is listed. -/
theorem ofExtension (wellFormed : view.WellFormed) (member_mem : member ∈ view.extensionMembers)
    (changes : ChangesOnly member.schema.id before between) {change : List Json → List Json}
    (entries : ∀ urns, view.KeepsEntries urns (change urns))
    (itself : ∀ urns, between.HasExtension member.schema.id ↔ ListsUrn (change urns) member.schema.id)
    (others : ∀ urns other, Text.fold other ≠ Text.fold member.schema.id →
      (ListsUrn (change urns) other ↔ ListsUrn urns other)) :
    view.FollowsListing before (changeSchemas between change) := by
  have listChange := (changeSchemas_edits between change).changesOnly changes.unambiguous
  have notSchemas {other : Member} (other_mem : other ∈ view.extensionMembers) :=
    wellFormed.notSchemas other (mem_members_of_mem_extensionMembers other_mem)
  refine ⟨listChange.unambiguous, fun urns stored => ⟨change urns, ?_, entries urns,
    fun other other_mem => ?_⟩⟩
  · have stored : between.attribute? "schemas" = some (.array urns) := by
      rw [changes.others "schemas" (Ne.symm (notSchemas member_mem))]
      exact stored
    exact attribute?_schemas_changeSchemas changes.unambiguous stored change
  · unfold FollowsExtension
    rw [HasExtension.congr (listChange.others _ (notSchemas other_mem))]
    by_cases equal : Text.fold other.schema.id = Text.fold member.schema.id
    · -- Extensions with one URN are one extension.
      obtain rfl := wellFormed.eq_of_fold_id_eq (mem_members_of_mem_extensionMembers other_mem)
        (mem_members_of_mem_extensionMembers member_mem) equal
      exact .inr (itself urns)
    · exact .inl ⟨HasExtension.congr (changes.others _ equal), others urns _ equal⟩

/-- Making the object of an extension. -/
theorem ofCreation (wellFormed : view.WellFormed) (unambiguous : before.Unambiguous)
    (member_mem : member ∈ view.extensionMembers) :
    view.FollowsListing before (createExtension member.schema.id before) := by
  refine .ofExtension wellFormed member_mem (.setAttribute unambiguous)
    (KeepsEntries.registered member_mem) (fun urns => ?_) fun urns other apart => ?_
  · have there : HasExtension (before.setAttribute member.schema.id (.object [])) member.schema.id :=
      ⟨_, attribute?_setAttribute before _ _, rfl⟩
    exact iff_of_true there (listsUrn_registered.mpr (.inl rfl))
  · exact listsUrn_registered.trans (or_iff_right apart)

/-- Dropping what stands under the URN of an extension. -/
theorem ofRemoval (wellFormed : view.WellFormed) (unambiguous : before.Unambiguous)
    (member_mem : member ∈ view.extensionMembers) :
    view.FollowsListing before
      (unregisterExtension (before.removeAttribute member.schema.id) member.schema.id) := by
  refine .ofExtension wellFormed member_mem (.removeAttribute unambiguous)
    (KeepsEntries.unregistered member_mem) (fun urns => ?_) fun urns other apart => ?_
  · have gone : ¬HasExtension (before.removeAttribute member.schema.id) member.schema.id := by
      rintro ⟨value, stored, _⟩
      rw [attribute?_removeAttribute_self unambiguous rfl] at stored
      cases stored
    exact iff_of_false gone fun listed => (listsUrn_unregistered.mp listed).1 rfl
  · exact listsUrn_unregistered.trans (and_iff_right apart)

end View.FollowsListing

/-! ### Steps -/

open View

/-- A change in the object of an extension keeps the list, whether the object had to be made for it and
whether it is left empty by it. -/
theorem View.FollowsListing.ofStep (wellFormed : view.WellFormed) (unambiguous : before.Unambiguous)
    (member_mem : member ∈ view.extensionMembers) {ready container changed : Object}
    (isReady : (if (before.attribute? member.schema.id).all Json.isNull then
      createExtension member.schema.id before else before) = ready)
    (slot : ready.slot? member.schema.id = some (.object container)) :
    view.FollowsListing before
      (tidyExtension (ready.replaceSlot member.schema.id (.object changed)) member.schema.id) := by
  have entered : view.FollowsListing before ready := by
    split at isReady
    · exact isReady ▸ .ofCreation wellFormed unambiguous member_mem
    · exact isReady ▸ .refl unambiguous
  have stored := (slot?_eq_attribute? entered.unambiguous).symm.trans slot
  have put : view.FollowsListing ready (ready.replaceSlot member.schema.id (.object changed)) := by
    have changes : ChangesOnly member.schema.id ready
        (ready.replaceSlot member.schema.id (.object changed)) := .replaceSlot entered.unambiguous
    have notSchemas :=
      wellFormed.notSchemas member (mem_members_of_mem_extensionMembers member_mem)
    refine .ofChanges changes notSchemas fun other other_mem => ?_
    by_cases equal : Text.fold other.schema.id = Text.fold member.schema.id
    · obtain rfl := wellFormed.eq_of_fold_id_eq (mem_members_of_mem_extensionMembers other_mem)
        (mem_members_of_mem_extensionMembers member_mem) equal
      -- One object takes the place of another.
      exact iff_of_true ⟨_, attribute?_replaceSlot_self entered.unambiguous stored, rfl⟩
        ⟨_, stored, rfl⟩
    · exact HasExtension.congr (changes.others _ equal)
  refine (entered.trans put).trans ?_
  unfold tidyExtension
  split
  · split
    · exact .refl put.unambiguous
    · exact .ofRemoval wellFormed put.unambiguous member_mem
  · exact .refl put.unambiguous

theorem applyTarget_followsListing {target : Target} {change : Change} (wellFormed : view.WellFormed)
    (unambiguous : before.Unambiguous) (declared : target.IsDeclared view member)
    (applied : applyTarget target change before = .ok () after) : view.FollowsListing before after := by
  obtain ⟨_, _, applies⟩ := applyTarget_applies applied
  cases applies with
  | atTop place applied =>
    obtain rfl := declared.eq_baseMember place
    have changes := (applyInContainer_writes unambiguous applied).changes
    refine .ofChanges changes (wellFormed.freeSchemas _ declared.definition) fun other other_mem => ?_
    have free := wellFormed.freeUrns _ declared.definition other other_mem
    exact HasExtension.congr (changes.others _ (Ne.symm free))
  | skipped => exact .refl unambiguous
  | inside place isReady _ slot =>
    obtain ⟨extension, rfl⟩ := declared.mem_extensionMembers place
    exact .ofStep wellFormed unambiguous extension isReady slot

theorem removeExtension_followsListing (wellFormed : view.WellFormed)
    (unambiguous : before.Unambiguous) (member_mem : member ∈ view.extensionMembers)
    (done : removeExtension member.schema before = .ok () after) : view.FollowsListing before after := by
  simp only [removeExtension, step_bind_eq_ok_iff, step_get_eq_ok_iff, step_check_eq_ok_iff,
    step_modify_eq_ok_iff] at done
  obtain ⟨_, _, ⟨rfl, rfl⟩, _, _, ⟨_, rfl⟩, removed⟩ := done
  split at removed
  · exact removed ▸ .ofRemoval wellFormed unambiguous member_mem
  · exact removed ▸ .refl unambiguous

theorem isKept_followsListing (wellFormed : view.WellFormed) :
    view.IsKept fun before after => before.Unambiguous → view.FollowsListing before after where
  refl _ := .refl
  trans first second unambiguous :=
    have follows := first unambiguous
    follows.trans (second follows.unambiguous)
  change declared _ _ applied unambiguous :=
    applyTarget_followsListing wellFormed unambiguous declared applied
  removal member_mem _ _ done unambiguous :=
    removeExtension_followsListing wellFormed unambiguous member_mem done

/-- **The list of schemas follows the extensions**: whatever the operations of a patch are, and wherever
it fails, a list that names the extensions of the resource and no others does so again. What else
stands in the list stays in its order, and no extension comes to be listed twice. -/
theorem patch_agrees (limits : Limits) (view : View) (operations : List PatchOperation)
    (resource : Object) (urns : List Json) (wellFormed : view.WellFormed)
    (distinct : resource.Distinct) (agrees : view.Agrees resource urns) :
    ∃ final left, (patch limits view operations (.object resource)).resource = .object final ∧
      view.Agrees final left ∧ view.foreign left = view.foreign urns ∧
      ∀ member ∈ view.extensionMembers, 2 ≤ left.countP (isUrn member.schema.id) →
        2 ≤ urns.countP (isUrn member.schema.id) := by
  obtain ⟨final, reached, related⟩ :=
    (isKept_followsListing wellFormed).patch limits resource operations
  obtain ⟨left, stored, kept, follows⟩ := (related distinct.unambiguous).listing urns agrees.stored
  have agreesAfter : view.Agrees final left := ⟨stored, fun member member_mem =>
    (follows member member_mem).agrees (agrees.listed member member_mem)⟩
  exact ⟨final, left, reached, agreesAfter, kept.foreign, kept.twice⟩

/-- One extension is left empty and goes; another one is made for an empty list and dropped again, and
made once more by the third operation. The last one fails. -/
theorem patch_agrees_partway :
    let view := View.ofSchemas { id := "urn:a" }
      [{ id := "urn:b", attributes := [.simple "badge" .integer] },
        { id := "urn:c"
          attributes := [.simple "code" .integer, { name := "tags", multiValued := true }] }]
    let urns : List Json := [.string "urn:a", .string "URN:B", .bool true]
    let resource : Object :=
      [("schemas", .array urns), ("urn:b", .object [("badge", .number (.integer 7))])]
    let operations : List PatchOperation :=
      [{ verb := .remove, path := some { reference := ⟨some "urn:b", "badge", none⟩ } },
        { verb := .add, path := some { reference := ⟨some "urn:c", "tags", none⟩ }
          value := some (.array []) },
        { verb := .add, path := some { reference := ⟨some "urn:c", "code", none⟩ }
          value := some (.number (.integer 7)) },
        { verb := .replace, path := some { reference := ⟨some "urn:c", "code", none⟩ }
          value := some (.bool false) }]
    let listed : List Json := [.string "urn:a", .bool true, .string "urn:c"]
    (patch {} view operations (.object resource)).resource = .object
        [("schemas", .array listed), ("urn:c", .object [("code", .number (.integer 7))])] ∧
      ∃ final left, (patch {} view operations (.object resource)).resource = .object final ∧
        view.Agrees final left ∧ view.foreign left = view.foreign urns ∧
        ∀ member ∈ view.extensionMembers, 2 ≤ left.countP (isUrn member.schema.id) →
          2 ≤ urns.countP (isUrn member.schema.id) := by
  refine ⟨rfl, patch_agrees {} _ _ _ _ (by decide) (by decide) ⟨rfl, ?listed⟩⟩
  intro member member_mem
  rcases List.mem_cons.mp member_mem with rfl | member_mem
  · exact iff_of_true ⟨_, rfl, rfl⟩ (by decide)
  · cases List.mem_singleton.mp member_mem
    refine iff_of_false (fun ⟨_, stored, _⟩ => ?_) (by decide)
    cases stored

end Scim
