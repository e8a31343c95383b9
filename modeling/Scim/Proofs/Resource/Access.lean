import Scim.Resource.Access
import Mathlib.Data.List.Nodup

/-!
# Reading after writing

In an object in which no name stands under two spellings, reading and writing go to the same place.
What is read after a write is then known for every name: the name that was written holds what was
put there, and every other name holds what it held before.
-/

namespace Scim.Object

variable {object : Object} {name other key : String} {value : Json}

/-- Keys that are the same up to case are the same. -/
def Unambiguous (object : Object) : Prop :=
  ∀ key ∈ object.keys, ∀ other ∈ object.keys, Text.fold key = Text.fold other → key = other

theorem Distinct.unambiguous (distinct : object.Distinct) : object.Unambiguous := by
  intro key member other memberOther same
  exact List.inj_on_of_nodup_map (List.pairwise_map.mpr distinct) member memberOther same

theorem unambiguous_nil : Unambiguous [] := by
  intro key member
  cases member

theorem mem_keys_of_get? (found : object.get? key = some value) : key ∈ object.keys := by
  obtain ⟨entry, first, rfl⟩ := Option.map_eq_some_iff.mp found
  have same : entry.1 = key := by simpa using List.find?_some first
  exact same ▸ List.mem_map_of_mem (List.mem_of_find?_eq_some first)

theorem mem_keys_erase (member : other ∈ keys (object.erase key)) :
    other ∈ object.keys ∧ other ≠ key := by
  obtain ⟨entry, inErased, rfl⟩ := List.mem_map.mp member
  obtain ⟨inObject, different⟩ := List.mem_filter.mp inErased
  exact ⟨List.mem_map_of_mem inObject, by simpa using different⟩

/-! ### Where a name stands -/

/-- The first key that is a name up to case holds the value it stands with. -/
theorem get?_of_find? {entry : String × Json}
    (first : object.find? (fun entry => Text.sameName entry.1 name) = some entry) :
    object.get? entry.1 = some entry.2 := by
  induction object with
  | nil => cases first
  | cons head rest ih =>
    rw [get?_cons]
    rw [List.find?_cons] at first
    cases same : Text.sameName head.1 name with
    | true =>
      rw [same] at first
      cases first
      exact if_pos rfl
    | false =>
      rw [same] at first
      have sameEntry : Text.sameName entry.1 name = true := by simpa using List.find?_some first
      have different : head.1 ≠ entry.1 := by
        intro equal
        rw [equal, sameEntry] at same
        cases same
      rw [if_neg different]
      exact ih first

theorem mem_keys_of_find? {entry : String × Json}
    (first : object.find? (fun entry => Text.sameName entry.1 name) = some entry) :
    entry.1 ∈ object.keys ∧ Text.fold entry.1 = Text.fold name := by
  have same : Text.sameName entry.1 name = true := by simpa using List.find?_some first
  exact ⟨List.mem_map_of_mem (List.mem_of_find?_eq_some first), Text.sameName_iff.mp same⟩

/-- A key of a name is the first one. -/
theorem find?_of_get? (unambiguous : object.Unambiguous) (found : object.get? key = some value)
    (same : Text.fold key = Text.fold name) :
    object.find? (fun entry => Text.sameName entry.1 name) = some (key, value) := by
  cases first : object.find? (fun entry => Text.sameName entry.1 name) with
  | none =>
    obtain ⟨entry, atKey, rfl⟩ := Option.map_eq_some_iff.mp found
    have equal : entry.1 = key := by simpa using List.find?_some atKey
    have notSame := List.find?_eq_none.mp first entry (List.mem_of_find?_eq_some atKey)
    exact absurd (Text.sameName_iff.mpr (equal ▸ same)) notSame
  | some entry =>
    obtain ⟨member, sameEntry⟩ := mem_keys_of_find? first
    have equal : entry.1 = key :=
      unambiguous entry.1 member key (mem_keys_of_get? found) (sameEntry.trans same.symm)
    have stored := get?_of_find? first
    rw [equal, found] at stored
    cases stored
    exact congrArg some (Prod.ext equal rfl)

/-- A name holds a value if and only if one of its spellings does. -/
theorem attribute?_eq_some_iff (unambiguous : object.Unambiguous) :
    object.attribute? name = some value ↔
      ∃ key, Text.fold key = Text.fold name ∧ object.get? key = some value := by
  unfold attribute?
  -- The exact name comes first; without it the first spelling is the only one.
  cases atName : object.get? name with
  | some stored =>
    constructor
    · rintro read
      exact ⟨name, rfl, atName.trans read⟩
    · rintro ⟨key, same, found⟩
      have equal := unambiguous key (mem_keys_of_get? found) name (mem_keys_of_get? atName) same
      rw [equal, atName] at found
      exact found
  | none =>
    constructor
    · intro read
      obtain ⟨entry, first, rfl⟩ := Option.map_eq_some_iff.mp read
      exact ⟨entry.1, (mem_keys_of_find? first).2, get?_of_find? first⟩
    · rintro ⟨key, same, found⟩
      exact Option.map_eq_some_iff.mpr ⟨_, find?_of_get? unambiguous found same, rfl⟩

/-- Names that are the same up to case hold the same. -/
theorem attribute?_congr_name (unambiguous : object.Unambiguous)
    (same : Text.fold name = Text.fold other) : object.attribute? name = object.attribute? other := by
  ext value
  rw [attribute?_eq_some_iff unambiguous, attribute?_eq_some_iff unambiguous, same]

/-- Reading and writing go to the same place. -/
theorem slot?_eq_attribute? (unambiguous : object.Unambiguous) :
    object.slot? name = object.attribute? name := by
  ext value
  rw [attribute?_eq_some_iff unambiguous, slot?, Option.bind_eq_some_iff]
  constructor
  · rintro ⟨key, spelling, found⟩
    obtain ⟨entry, first, rfl⟩ := Option.map_eq_some_iff.mp spelling
    exact ⟨entry.1, (mem_keys_of_find? first).2, found⟩
  · rintro ⟨key, same, found⟩
    exact ⟨key, Option.map_eq_some_iff.mpr ⟨_, find?_of_get? unambiguous found same, rfl⟩, found⟩

/-! ### Writing a name -/

theorem Unambiguous.erase (unambiguous : object.Unambiguous) (key : String) :
    Unambiguous (object.erase key) :=
  fun first member second memberSecond same =>
    unambiguous first (mem_keys_erase member).1 second (mem_keys_erase memberSecond).1 same

/-- A key can be put in if no other spelling of it is there. -/
theorem Unambiguous.insert (unambiguous : object.Unambiguous)
    (alone : ∀ other ∈ object.keys, Text.fold other = Text.fold key → other = key) (value : Json) :
    Unambiguous (object.insert key value) := by
  intro first member second memberSecond same
  rcases mem_keys_insert.mp member with rfl | inObject
  · rcases mem_keys_insert.mp memberSecond with rfl | secondInObject
    · rfl
    · exact (alone second secondInObject same.symm).symm
  · rcases mem_keys_insert.mp memberSecond with rfl | secondInObject
    · exact alone first inObject same
    · exact unambiguous first inObject second secondInObject same

theorem spelling?_eq_some {key : String} (found : object.spelling? name = some key) :
    key ∈ object.keys ∧ Text.fold key = Text.fold name := by
  obtain ⟨entry, first, rfl⟩ := Option.map_eq_some_iff.mp found
  exact mem_keys_of_find? first

theorem spelling?_eq_none (absent : object.spelling? name = none) (member : key ∈ object.keys) :
    Text.fold key ≠ Text.fold name := by
  obtain ⟨entry, inObject, rfl⟩ := List.mem_map.mp member
  have notSame := List.find?_eq_none.mp (Option.map_eq_none_iff.mp absent) entry inObject
  exact fun same => notSame (Text.sameName_iff.mpr same)

theorem Unambiguous.setAttribute (unambiguous : object.Unambiguous) (name : String) (value : Json) :
    Unambiguous (object.setAttribute name value) := by
  unfold Object.setAttribute
  cases spelling : object.spelling? name with
  | none =>
    have fresh : ∀ other ∈ object.keys, Text.fold other = Text.fold name → other = name :=
      fun other member same => absurd same (spelling?_eq_none spelling member)
    exact unambiguous.insert fresh value
  | some key =>
    obtain ⟨member, same⟩ := spelling?_eq_some spelling
    -- The spelling that is there is the only one, and it gives way to the name as it is written.
    have only : ∀ other ∈ object.keys, Text.fold other = Text.fold name → other = key := by
      intro other memberOther sameOther
      exact unambiguous other memberOther key member (sameOther.trans same.symm)
    by_cases equal : key = name
    · simp only [if_pos equal]
      exact unambiguous.insert (fun other member same => equal ▸ only other member same) value
    · simp only [if_neg equal]
      refine (unambiguous.erase key).insert (fun other member same => ?_) value
      obtain ⟨inObject, different⟩ := mem_keys_erase member
      exact absurd (only other inObject same) different

theorem Unambiguous.removeAttribute (unambiguous : object.Unambiguous) (name : String) :
    Unambiguous (object.removeAttribute name) := by
  unfold Object.removeAttribute
  cases object.spelling? name with
  | none => exact unambiguous
  | some key => exact unambiguous.erase key

theorem Unambiguous.replaceSlot (unambiguous : object.Unambiguous) (name : String) (value : Json) :
    Unambiguous (object.replaceSlot name value) := by
  unfold Object.replaceSlot
  cases spelling : object.spelling? name with
  | none => exact unambiguous
  | some key =>
    have member := (spelling?_eq_some spelling).1
    have only : ∀ other ∈ object.keys, Text.fold other = Text.fold key → other = key :=
      fun other memberOther same => unambiguous other memberOther key member same
    exact unambiguous.insert only value

/-! ### Reading a name again -/

/-- What is put under a name is read under that name, in any object. -/
theorem attribute?_setAttribute (object : Object) (name : String) (value : Json) :
    Object.attribute? (object.setAttribute name value) name = some value := by
  have exact : (object.setAttribute name value).get? name = some value := by
    unfold Object.setAttribute
    split
    · split <;> rw [get?_insert, if_pos rfl]
    · rw [get?_insert, if_pos rfl]
  rw [attribute?, exact]

theorem attribute?_removeAttribute_self (unambiguous : object.Unambiguous)
    (same : Text.fold other = Text.fold name) :
    Object.attribute? (object.removeAttribute name) other = none := by
  refine Option.eq_none_iff_forall_ne_some.mpr fun stored read => ?_
  obtain ⟨key, sameKey, found⟩ := (attribute?_eq_some_iff (unambiguous.removeAttribute name)).mp read
  have toName : Text.fold key = Text.fold name := sameKey.trans same
  -- A key that is left would be another spelling of the one that was dropped.
  unfold Object.removeAttribute at found
  cases spelling : object.spelling? name with
  | none =>
    rw [spelling] at found
    exact spelling?_eq_none spelling (mem_keys_of_get? found) toName
  | some first =>
    rw [spelling] at found
    obtain ⟨inObject, different⟩ := mem_keys_erase (mem_keys_of_get? found)
    obtain ⟨member, sameFirst⟩ := spelling?_eq_some spelling
    exact different (unambiguous key inObject first member (toName.trans sameFirst.symm))

/-- A value that is there is replaced. -/
theorem attribute?_replaceSlot_self {stored : Json} (unambiguous : object.Unambiguous)
    (there : object.attribute? name = some stored) :
    Object.attribute? (object.replaceSlot name value) name = some value := by
  obtain ⟨key, same, found⟩ := (attribute?_eq_some_iff unambiguous).mp there
  have spelling : object.spelling? name = some key :=
    Option.map_eq_some_iff.mpr ⟨_, find?_of_get? unambiguous found same, rfl⟩
  refine (attribute?_eq_some_iff (unambiguous.replaceSlot name value)).mpr ⟨key, same, ?_⟩
  rw [Object.replaceSlot, spelling]
  exact (get?_insert object key key value).trans (if_pos rfl)

/-- Objects that agree on all spellings of a name agree on the name. -/
theorem attribute?_congr {changed : Object} (unambiguous : object.Unambiguous)
    (unambiguousChanged : changed.Unambiguous)
    (agree : ∀ key, Text.fold key = Text.fold other → changed.get? key = object.get? key) :
    changed.attribute? other = object.attribute? other := by
  ext value
  rw [attribute?_eq_some_iff unambiguous, attribute?_eq_some_iff unambiguousChanged]
  exact exists_congr fun key => and_congr_right fun same => by rw [agree key same]

theorem attribute?_setAttribute_of_ne (unambiguous : object.Unambiguous)
    (apart : Text.fold other ≠ Text.fold name) :
    Object.attribute? (object.setAttribute name value) other = object.attribute? other := by
  refine attribute?_congr unambiguous (unambiguous.setAttribute name value) fun key same => ?_
  have notName : name ≠ key := fun equal => apart (equal ▸ same.symm)
  unfold Object.setAttribute
  cases spelling : object.spelling? name with
  | none => exact (get?_insert object name key value).trans (if_neg notName)
  | some first =>
    have notFirst : first ≠ key :=
      fun equal => apart ((equal ▸ same.symm).trans (spelling?_eq_some spelling).2)
    by_cases equal : first = name
    · simp only [if_pos equal, get?_insert, if_neg notName]
    · simp only [if_neg equal, get?_insert, if_neg notName, get?_erase, if_neg notFirst]

theorem attribute?_removeAttribute_of_ne (unambiguous : object.Unambiguous)
    (apart : Text.fold other ≠ Text.fold name) :
    Object.attribute? (object.removeAttribute name) other = object.attribute? other := by
  refine attribute?_congr unambiguous (unambiguous.removeAttribute name) fun key same => ?_
  unfold Object.removeAttribute
  cases spelling : object.spelling? name with
  | none => rfl
  | some first =>
    have notFirst : first ≠ key :=
      fun equal => apart ((equal ▸ same.symm).trans (spelling?_eq_some spelling).2)
    exact (get?_erase object first key).trans (if_neg notFirst)

theorem attribute?_replaceSlot_of_ne (unambiguous : object.Unambiguous)
    (apart : Text.fold other ≠ Text.fold name) :
    Object.attribute? (object.replaceSlot name value) other = object.attribute? other := by
  refine attribute?_congr unambiguous (unambiguous.replaceSlot name value) fun key same => ?_
  unfold Object.replaceSlot
  cases spelling : object.spelling? name with
  | none => rfl
  | some first =>
    have notFirst : first ≠ key :=
      fun equal => apart ((equal ▸ same.symm).trans (spelling?_eq_some spelling).2)
    exact (get?_insert object first key value).trans (if_neg notFirst)

/-! ### Changes under one name -/

/-- Only what stands under a name has changed, if anything, and every name still stands in one
place. -/
structure ChangesOnly (name : String) (before after : Object) : Prop where
  unambiguous : after.Unambiguous
  others : ∀ other, Text.fold other ≠ Text.fold name → after.attribute? other = before.attribute? other

namespace ChangesOnly

theorem refl (unambiguous : object.Unambiguous) : ChangesOnly name object object :=
  ⟨unambiguous, fun _ _ => rfl⟩

theorem trans {before between after : Object} (first : ChangesOnly name before between)
    (second : ChangesOnly name between after) : ChangesOnly name before after :=
  ⟨second.unambiguous, fun other apart => (second.others other apart).trans (first.others other apart)⟩

theorem setAttribute (unambiguous : object.Unambiguous) :
    ChangesOnly name object (object.setAttribute name value) :=
  ⟨unambiguous.setAttribute name value, fun _ apart => attribute?_setAttribute_of_ne unambiguous apart⟩

theorem removeAttribute (unambiguous : object.Unambiguous) :
    ChangesOnly name object (object.removeAttribute name) :=
  ⟨unambiguous.removeAttribute name, fun _ apart => attribute?_removeAttribute_of_ne unambiguous apart⟩

theorem replaceSlot (unambiguous : object.Unambiguous) :
    ChangesOnly name object (object.replaceSlot name value) :=
  ⟨unambiguous.replaceSlot name value, fun _ apart => attribute?_replaceSlot_of_ne unambiguous apart⟩

end ChangesOnly

end Scim.Object
