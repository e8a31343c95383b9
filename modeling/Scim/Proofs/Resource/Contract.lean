import Scim.Proofs.Resource.Spellings

/-!
# What reading and writing promise

A name is to be read where it is written, to stand in one place after it has been set and in none
after it has been removed. Where it stands under several spellings, a write changes the first of them
and leaves the others, so that the promise is kept for exactly those names that stand under one
spelling at most. What is written under other names is never touched.
-/

namespace Scim.Object

variable {object : Object} {name : String} {value : Json} {entry : String × Json}

/-! ### The first spelling -/

/-- A write goes to the first of the entries under a name. -/
theorem spelling?_eq_head? (object : Object) (name : String) :
    object.spelling? name = (object.under name).head?.map (·.1) := by
  rw [spelling?, under, List.head?_filter]

theorem slot?_eq_head? (object : Object) (name : String) :
    object.slot? name = (object.under name).head?.map (·.2) := by
  rw [slot?, spelling?_eq_head?, under, List.head?_filter]
  cases first : object.find? (Text.sameName ·.1 name) with
  | none => rfl
  | some entry => exact get?_of_find? first

/-- The first entry is dropped, and no other one has its key. -/
theorem erase_head {rest : Object} (sorted : Sorted (entry :: rest)) :
    Object.erase (entry :: rest) entry.1 = rest := by
  obtain ⟨below, _⟩ := List.pairwise_cons.mp sorted
  rw [Object.erase, List.filter_cons_of_neg (by simp), List.filter_eq_self]
  intro other member
  have less := below other.1 (List.mem_map_of_mem member)
  simpa using (String.ne_of_lt less).symm

/-- Taking a name out gives what a write would go to. -/
theorem takeAttribute_eq (object : Object) (name : String) :
    object.takeAttribute name = (object.slot? name, object.removeAttribute name) := by
  rw [takeAttribute, slot?, removeAttribute]
  cases object.spelling? name <;> rfl

/-! ### What becomes of the entries under a name -/

/-- Removing a name removes the first entry under it. -/
theorem under_removeAttribute_eq_tail (sorted : object.Sorted) (name : String) :
    under (object.removeAttribute name) name = (object.under name).tail := by
  rw [under_removeAttribute, removeAttribute, spelling?_under, spelling?_eq_head?]
  have sortedUnder := sorted.under name
  cases entries : object.under name with
  | nil => rfl
  | cons entry rest =>
    rw [entries] at sortedUnder
    exact erase_head sortedUnder

/-- Setting a name replaces the first entry under it. -/
theorem under_setAttribute_eq_insert (sorted : object.Sorted) (name : String) (value : Json) :
    under (object.setAttribute name value) name = Object.insert name value (object.under name).tail := by
  rw [under_setAttribute sorted, setAttribute, spelling?_under, spelling?_eq_head?]
  have sortedUnder := sorted.under name
  cases entries : object.under name with
  | nil => rfl
  | cons entry rest =>
    rw [entries] at sortedUnder
    simp only [List.head?_cons, Option.map_some, List.tail_cons]
    split
    next exact =>
      -- The name is the first spelling already, so it stands in front of the others again.
      have first : ∀ key ∈ keys rest, name < key := exact ▸ (List.pairwise_cons.mp sortedUnder).1
      rw [insert, if_pos exact.symm, insert_of_forall_gt first]
    · rw [erase_head sortedUnder]

/-! ### Names that stand in one place -/

/-- No write under a name touches an entry under another one. -/
def KeepsOthers (object : Object) (name : String) : Prop :=
  ∀ other, Text.fold other ≠ Text.fold name →
    (∀ value, under (object.replaceSlot name value) other = object.under other) ∧
      (∀ value, under (object.setAttribute name value) other = object.under other) ∧
      under (object.removeAttribute name) other = object.under other

/-- What reading and writing under a name promise. -/
structure Honours (object : Object) (name : String) : Prop where
  /-- What is read is what a write goes to. -/
  reads : object.attribute? name = object.slot? name
  /-- What is read is what has been changed in place. -/
  changes : ∀ value,
    Object.attribute? (object.replaceSlot name value) name = (object.attribute? name).map fun _ => value
  /-- A name that has been set stands in one place, as it is spelt. -/
  sets : ∀ value, under (object.setAttribute name value) name = [(name, value)]
  /-- What is taken out is what has been read. -/
  gives : (object.takeAttribute name).1 = object.attribute? name
  /-- A name that has been taken out is gone, in all its spellings. -/
  removes : under (object.takeAttribute name).2 name = []
  others : object.KeepsOthers name

/-- A single entry under a name is the one that is read. -/
theorem attribute?_singleton (same : Text.fold entry.1 = Text.fold name) :
    attribute? [entry] name = some entry.2 := by
  rw [attribute?, get?_cons]
  by_cases exact : entry.1 = name
  · rw [if_pos exact]
  · rw [if_neg exact, List.find?_cons, Text.sameName_iff.mpr same]
    rfl

theorem attribute?_of_under (entries : object.under name = [entry]) :
    object.attribute? name = some entry.2 := by
  have member : entry ∈ object.under name := entries ▸ List.mem_singleton_self entry
  rw [← attribute?_under, entries]
  exact attribute?_singleton (mem_under_iff.mp member).2

theorem attribute?_of_under_nil (entries : object.under name = []) : object.attribute? name = none := by
  rw [← attribute?_under, entries]
  rfl

theorem keepsOthers (sorted : object.Sorted) (name : String) : object.KeepsOthers name :=
  fun _ apart => ⟨fun value => under_of_edits sorted (.replace value .refl) apart,
    fun value => under_of_edits sorted (.set value .refl) apart,
    under_of_edits sorted (.remove .refl) apart⟩

theorem honours_of_under (sorted : object.Sorted) (single : (object.under name).length ≤ 1) :
    object.Honours name := by
  have takes := takeAttribute_eq object name
  have sets := under_setAttribute_eq_insert sorted name
  have removes := under_removeAttribute_eq_tail sorted name
  have slot := slot?_eq_head? object name
  have replaces := under_replaceSlot sorted name
  match entries : object.under name, single with
  | [], _ =>
    rw [entries] at sets removes slot replaces
    have read := attribute?_of_under_nil entries
    refine ⟨read.trans slot.symm, fun value => ?_, sets, takes ▸ slot.trans read.symm, takes ▸ removes,
      keepsOthers sorted name⟩
    rw [attribute?_of_under_nil (replaces value), read]
    rfl
  | [entry], _ =>
    have same : Text.fold entry.1 = Text.fold name :=
      (mem_under_iff.mp (entries ▸ List.mem_singleton_self entry : entry ∈ object.under name)).2
    rw [entries] at sets removes slot replaces
    have read := attribute?_of_under entries
    refine ⟨read.trans slot.symm, fun value => ?_, sets, takes ▸ slot.trans read.symm, takes ▸ removes,
      keepsOthers sorted name⟩
    have changed : under (object.replaceSlot name value) name = [(entry.1, value)] := by
      rw [replaces, replaceSlot, spelling?_eq_head?, under_cons_of_same same]
      simp [under, insert]
    rw [attribute?_of_under changed, read]
    rfl

/-- **A name is honoured** if and only if it stands under one spelling at most. In any object, setting
it replaces the first entry under it, taking it out gives back and drops the first entry, and what
stands under other names is left as it is. -/
theorem honours_iff (sorted : object.Sorted) (name : String) :
    (object.Honours name ↔ (object.under name).length ≤ 1) ∧
    (∀ value, under (object.setAttribute name value) name =
      Object.insert name value (object.under name).tail) ∧
    object.takeAttribute name =
      ((object.under name).head?.map (·.2), object.removeAttribute name) ∧
    under (object.removeAttribute name) name = (object.under name).tail ∧
    object.KeepsOthers name := by
  refine ⟨⟨fun honours => ?_, honours_of_under sorted⟩, under_setAttribute_eq_insert sorted name,
    slot?_eq_head? object name ▸ takeAttribute_eq object name, under_removeAttribute_eq_tail sorted name,
    keepsOthers sorted name⟩
  have gone := honours.removes
  rw [takeAttribute_eq, under_removeAttribute_eq_tail sorted] at gone
  have short := congrArg List.length gone
  rw [List.length_tail, List.length_nil] at short
  omega

/-- The object has a second name, which is not honoured. -/
theorem honours_iff_spelt :
    let object : Object := [("ID", .null), ("NAME", .bool true), ("name", .bool false)]
    object.Sorted ∧ object.Honours "id" ∧
      under (object.setAttribute "id" (.bool true)) "ID" = [("id", .bool true)] := by
  intro object
  have sorted : object.Sorted := by
    unfold Sorted
    decide
  have honours : object.Honours "id" := (honours_iff sorted "id").1.mpr (by decide)
  exact ⟨sorted, honours, honours.sets (.bool true)⟩

/-- Of two spellings, the one that is read is not the one that is changed or removed, and each write
leaves the one that it does not go to. -/
theorem not_honours_twice :
    let object : Object := [("NAME", .bool true), ("name", .bool false)]
    object.Sorted ∧ object.attribute? "name" = some (.bool false) ∧
      object.slot? "name" = some (.bool true) ∧
      object.takeAttribute "name" = (some (.bool true), [("name", .bool false)]) ∧
      object.setAttribute "Name" .null = [("Name", .null), ("name", .bool false)] ∧
      ¬object.Honours "name" := by
  intro object
  have sorted : object.Sorted := by
    unfold Sorted
    decide
  refine ⟨sorted, rfl, rfl, rfl, rfl, fun honours => ?_⟩
  have reads : some (Json.bool false) = some (.bool true) := honours.reads
  cases reads

end Scim.Object
