import Scim.Proofs.Patch.Mutability

/-!
# Adding to collections

Values that are added to a multi-valued attribute come behind those that it has. What it has stays,
item by item and in its order; of the added items those are left out that the collection has already,
and repetitions among them. Equal are items that are the same JSON value, so that `1` and `1.0` are
two items.
-/

namespace Scim

open Object

/-! ### Collections -/

/-- The collection that a value stands for, be it stored or given: an array for its items, any other
value for itself, and `null`, like no value at all, for no items. -/
inductive Json.StandsFor : Option Json → List Json → Prop
  | absent : StandsFor none []
  | null : StandsFor (some .null) []
  | array {items : List Json} : StandsFor (some (.array items)) items
  | item {value : Json} : value.isNull = false → (∀ items, value ≠ .array items) →
    StandsFor (some value) [value]

/-- The items of a list that are not among the known ones, each of them once. -/
def newItems (known items : List Json) : List Json :=
  (items.filter fun item => !known.any (Json.same · item)).eraseDupsBy fun item earlier =>
    earlier.same item

section Items

variable {item value : Json} {known items : List Json}

theorem newItems_cons_of_known (isKnown : known.any (Json.same · item) = true) :
    newItems known (item :: items) = newItems known items := by
  rw [newItems, List.filter_cons_of_neg (by simp [isKnown]), newItems]

/-- Once an item has been added, it is known. -/
theorem newItems_cons_of_new (isNew : ¬known.any (Json.same · item) = true) :
    newItems known (item :: items) = item :: newItems (known ++ [item]) items := by
  rw [newItems, List.filter_cons_of_pos (by simpa using isNew), List.eraseDupsBy_cons,
    List.filter_filter, newItems]
  refine congrArg (item :: List.eraseDupsBy _ ·) (List.filter_congr fun other _ => ?_)
  simp [List.any_append, Bool.and_comm]

theorem addItems_eq_append (known items : List Json) :
    addItems known items = known ++ newItems known items := by
  induction items generalizing known with
  | nil => exact (List.append_nil known).symm
  | cons item rest ih =>
    rw [addItems]
    split
    next isKnown => rw [ih, newItems_cons_of_known isKnown]
    next isNew => rw [ih, newItems_cons_of_new isNew, List.append_assoc, List.singleton_append]

theorem standsFor_storedItems (stored : Option Json) : Json.StandsFor stored (storedItems stored) := by
  cases stored with
  | none => exact .absent
  | some value =>
    cases value with
    | null => exact .null
    | array items => exact .array
    | _ => exact .item rfl nofun

theorem standsFor_addedItems (notNull : value.isNull = false) :
    Json.StandsFor (some value) (addedItems value) := by
  cases value with
  | null => cases notNull
  | array items => exact .array
  | _ => exact .item rfl nofun

end Items

/-- An attribute is not made for a collection without items. -/
def collectionOf (items : List Json) : Option Json := if items.isEmpty then none else some (.array items)

theorem attribute?_addToCollection {container : Object} (unambiguous : container.Unambiguous)
    (name : String) (value : Json) :
    Object.attribute? (addToCollection name value container) name =
      collectionOf (storedItems (container.attribute? name) ++
        newItems (storedItems (container.attribute? name)) (addedItems value)) := by
  rw [← addItems_eq_append, ← slot?_eq_attribute? unambiguous]
  simp only [addToCollection, collectionOf]
  split
  · exact attribute?_removeAttribute_self unambiguous rfl
  · exact attribute?_setAttribute _ name _

/-! ### Operations -/

section Operation

variable {view : View} {target : Target} {change : Change} {value : Json} {before after : Object}
  {resolved : Resolved}

/-- A value that is added to an attribute as a whole is added to its collection. -/
theorem Target.Rewrites.of_add (unfiltered : target.filter = none) (whole : target.sub = none)
    (many : target.definition.multiValued = true) (isAdd : change = .add value)
    (rewrites : target.Rewrites change before after) :
    after = addToCollection target.definition.name value before := by
  subst isAdd
  cases rewrites with
  | added _ _ _ same =>
    cases same
    rfl
  | removed _ _ other | replaced _ _ _ other => cases other
  | merged _ _ single | overwritten _ _ single =>
    rw [many] at single
    cases single
  | untouched _ inner | subOfItems _ inner | subOfValue _ inner =>
    rw [whole] at inner
    cases inner
  | selected filtered =>
    rw [unfiltered] at filtered
    cases filtered

/-- The object that holds an attribute has one key for each name, if that is so for the resource and
for its extensions. -/
theorem View.Unambiguous.container? (unambiguous : view.Unambiguous before)
    (member_mem : resolved.member ∈ view.members) :
    Object.Unambiguous ((resolved.container? before).getD []) := by
  unfold Resolved.container?
  cases key : resolved.member.key? with
  | none => exact unambiguous.top
  | some urn =>
    obtain ⟨extension, rfl⟩ := View.mem_extensionMembers_of_key? member_mem key
    exact unambiguous.container extension

/-- **Adding to a collection neither loses, reorders nor duplicates**: in any view, if a value is added
to a multi-valued attribute, without a value filter, the attribute holds afterwards the items that it
has held, in their order, and behind them the added ones, in theirs, without those that are known
already. An attribute without items is not kept, and neither is the object of an extension that holds
nothing after that. -/
theorem patch_appends (limits : Limits) (view : View) (operation : PatchOperation) (path : PatchPath)
    (resolved : Resolved) (before after : Object) (distinct : view.IsDistinct (.object before))
    (isAdd : operation.verb = .add) (isPath : operation.path = some path)
    (attributewise : path.wholeExtension? view = none) (unfiltered : path.filter = none)
    (bound : view.resolveAttribute? path.reference = some resolved)
    (whole : Target.resolveSub resolved path.sub path.text = .ok none)
    (many : resolved.definition.multiValued = true)
    (done : patch limits view [operation] (.object before) = ⟨.object after, none⟩) :
    ∃ value old added left, operation.value = some value ∧
      Json.StandsFor (resolved.value? before) old ∧ Json.StandsFor (some value) added ∧
      ChangesOnly resolved.definition.name ((resolved.container? before).getD []) left ∧
      left.attribute? resolved.definition.name = collectionOf (old ++ newItems old added) ∧
      resolved.Leaves before left after := by
  obtain ⟨_, same, applied⟩ := exists_of_patch_singleton done
  cases same
  obtain ⟨target, change, isTarget, made, applied⟩ :=
    PatchOperation.apply_eq_ok isPath attributewise applied
  obtain ⟨found, inner, boundFound, foundSub, _, rfl⟩ := Target.resolve_eq_ok isTarget
  obtain rfl := Option.some.inj (bound.symm.trans boundFound)
  obtain rfl := Except.ok.inj (whole.symm.trans foundSub)
  -- What is added is the value of the operation, which is not `null`.
  obtain ⟨value, isValue, notNull, isChange⟩ := Change.eq_add_of_ofOperation isAdd made
  have inside : Object.Unambiguous ((resolved.container? before).getD []) :=
    distinct.unambiguous.container? (View.resolveAttribute?_eq_some bound).1
  obtain ⟨_, _, ⟨_, nothing, _⟩ | ⟨left, stepped, leaves⟩⟩ :=
    applyTarget_eq_ok rfl distinct.unambiguous.top applied
  · rw [isChange] at nothing
    cases nothing
  · obtain ⟨_, rewrites⟩ := applyInContainer_eq_ok stepped
    have isLeft := rewrites.of_add unfiltered rfl many isChange
    refine ⟨value, _, _, left, isValue, standsFor_storedItems _, standsFor_addedItems notNull,
      rewrites.edits.changesOnly inside, ?_, leaves⟩
    rw [isLeft, attribute?_addToCollection inside, resolved.value?_eq]

/-- A single number stands where an array should. Of the numbers that are added one is equal to it only
as a number, one is known, and one is repeated. -/
theorem patch_appends_sizes :
    let number := fun (n : Int) => Json.number (.integer n)
    let zero : Json := .number (.float .zero)
    let sizes : Attribute := { name := "sizes", type := .decimal, multiValued := true }
    let extension : Schema := { id := "urn:b", attributes := [sizes] }
    let view := View.ofSchemas { id := "urn:a", attributes := [{ name := "title" }] } [extension]
    let operation : PatchOperation :=
      { verb := .add, path := some { reference := ⟨none, "SIZES", none⟩ }
        value := some (.array [zero, number 0, number 2, number 2]) }
    let resolved : Resolved := ⟨⟨.extension 0, extension⟩, sizes, none⟩
    let before : Object := [("URN:B", .object [("Sizes", number 0)])]
    let after : Object := [("URN:B", .object [("sizes", .array [number 0, zero, number 2])])]
    patch {} view [operation] (.object before) = ⟨.object after, none⟩ ∧
      ∃ value old added left, operation.value = some value ∧
        Json.StandsFor (resolved.value? before) old ∧ Json.StandsFor (some value) added ∧
        ChangesOnly "sizes" ((resolved.container? before).getD []) left ∧
        left.attribute? "sizes" = collectionOf (old ++ newItems old added) ∧
        resolved.Leaves before left after := by
  refine (and_iff_left_of_imp fun done => ?_).mpr rfl
  refine patch_appends {} _ _ _ ⟨⟨.extension 0, _⟩, _, none⟩ _ _ ?distinct rfl rfl rfl rfl rfl rfl rfl done
  intro object same
  cases same
  refine ⟨by decide, fun member member_mem container stored => ?_⟩
  rw [List.mem_singleton.mp member_mem] at stored
  cases stored
  decide

end Operation

end Scim
