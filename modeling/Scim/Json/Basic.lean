import Scim.Number.Double

/-!
# JSON values

A number is an integer or a binary floating point number: `1` and `1.0` are different values. An
object is the list of its entries in the order of their keys, each key once; `Json.Ordered` states
that order, and `Object.insert` and `Object.erase` keep it.
-/

namespace Scim

inductive Number where
  | integer (value : Int)
  | float (value : Double)
  deriving DecidableEq

namespace Number

/-- Equality of values: an integer never equals a floating point number, and `0.0` equals `-0.0`. -/
def same : Number → Number → Bool
  | .integer n, .integer m => n == m
  | .float x, .float y => x.same y
  | _, _ => false

/-- The integer a number stands for, if it lies in the signed 64-bit range. -/
def toInt64? : Number → Option Int
  | .integer n => if -(twoTo 63 : Int) ≤ n ∧ n < twoTo 63 then some n else none
  | .float _ => none

def toDouble? : Number → Option Double
  | .integer n => Double.ofInt? n
  | .float x => some x

/-- The numerical order of two numbers. It is exact for two integers of the signed 64-bit range; any
other pair is compared in binary64. -/
def order? (a b : Number) : Option Ordering :=
  match a.toInt64?, b.toInt64? with
  | some n, some m => some (compare n m)
  | _, _ => do
    let x ← a.toDouble?
    let y ← b.toDouble?
    return x.order y

def isInteger : Number → Bool
  | .integer _ => true
  | .float _ => false

end Number

inductive Json where
  | null
  | bool (value : Bool)
  | number (value : Number)
  | string (value : String)
  | array (items : List Json)
  | object (entries : List (String × Json))

abbrev Object := List (String × Json)

/-! ### Objects -/

namespace Object

def get? (object : Object) (key : String) : Option Json :=
  (object.find? (·.1 == key)).map (·.2)

/-- Puts a value under a key, in place of the value that was there. -/
def insert (key : String) (value : Json) : Object → Object
  | [] => [(key, value)]
  | entry :: rest =>
    if key = entry.1 then (key, value) :: rest
    else if key < entry.1 then (key, value) :: entry :: rest
    else entry :: insert key value rest

def erase (object : Object) (key : String) : Object := object.filter (·.1 != key)

/-- The object with the given entries; of several entries with one key the last one stays. -/
def ofEntries (entries : List (String × Json)) : Object :=
  entries.foldl (fun object entry => object.insert entry.1 entry.2) []

def keys (object : Object) : List String := object.map (·.1)

/-- Every key stands once, and the keys stand in the order of their code points. -/
def Sorted (object : Object) : Prop := object.keys.Pairwise (· < ·)

theorem get?_cons (entry : String × Json) (rest : Object) (key : String) :
    get? (entry :: rest) key = if entry.1 = key then some entry.2 else get? rest key := by
  by_cases same : entry.1 = key <;> simp [get?, same]

theorem get?_insert (object : Object) (key other : String) (value : Json) :
    (object.insert key value).get? other = if key = other then some value else object.get? other := by
  induction object with
  | nil => simp only [insert, get?_cons]
  | cons entry rest ih =>
    simp only [insert]
    split
    · next same =>
      simp only [get?_cons, ← same]
      split <;> rfl
    · next different =>
      split
      · simp only [get?_cons]
      · simp only [get?_cons, ih]
        by_cases atKey : key = other
        · subst atKey
          simp [Ne.symm different]
        · simp [atKey]

theorem get?_erase (object : Object) (key other : String) :
    (object.erase key).get? other = if key = other then none else object.get? other := by
  induction object with
  | nil => simp [erase, get?]
  | cons entry rest ih =>
    unfold erase at ih ⊢
    by_cases same : entry.1 = key
    · rw [List.filter_cons_of_neg (by simp [same]), ih, get?_cons, same]
      split <;> rfl
    · rw [List.filter_cons_of_pos (by simp [same]), get?_cons, get?_cons, ih]
      by_cases atKey : key = other
      · subst atKey
        simp [same]
      · simp [atKey]

theorem mem_keys_insert {object : Object} {key other : String} {value : Json} :
    other ∈ keys (object.insert key value) ↔ other = key ∨ other ∈ object.keys := by
  induction object with
  | nil => simp [insert, keys]
  | cons entry rest ih =>
    simp only [insert]
    split
    · next same => simp [keys, same]
    · split
      · simp [keys]
      · simp only [keys, List.map_cons, List.mem_cons] at ih ⊢
        rw [ih]
        exact or_left_comm

theorem Sorted.insert {object : Object} (sorted : object.Sorted) (key : String) (value : Json) :
    (object.insert key value).Sorted := by
  induction object with
  | nil => simp [Object.insert, Sorted, keys]
  | cons entry rest ih =>
    obtain ⟨below, sortedRest⟩ := List.pairwise_cons.mp sorted
    simp only [Object.insert]
    split
    · next same =>
      subst same
      exact sorted
    · next different =>
      split
      · next less =>
        refine List.pairwise_cons.mpr ⟨?_, sorted⟩
        intro other member
        rcases List.mem_cons.mp member with rfl | member
        · exact less
        · exact String.lt_trans less (below other member)
      · next notLess =>
        refine List.pairwise_cons.mpr ⟨?_, ih sortedRest⟩
        intro other member
        rcases mem_keys_insert.mp member with rfl | member
        · exact Std.lt_of_le_of_ne (String.not_lt.mp notLess) (Ne.symm different)
        · exact below other member

theorem Sorted.erase {object : Object} (sorted : object.Sorted) (key : String) :
    (object.erase key).Sorted :=
  List.Pairwise.sublist (List.filter_sublist.map _) sorted

/-- An object that is made of entries is in order, whatever the order of the entries. -/
theorem sorted_ofEntries (entries : List (String × Json)) : (ofEntries entries).Sorted := by
  suffices fold : ∀ object : Object, object.Sorted →
      Sorted (entries.foldl (fun object entry => object.insert entry.1 entry.2) object) from
    fold [] List.Pairwise.nil
  induction entries with
  | nil => exact fun _ sorted => sorted
  | cons entry rest ih => exact fun object sorted => ih _ (sorted.insert entry.1 entry.2)

end Object

namespace Json

mutual

/-- Equality of values, numbers compared by `Number.same`. -/
def same : Json → Json → Bool
  | .null, .null => true
  | .bool a, .bool b => a == b
  | .number a, .number b => a.same b
  | .string a, .string b => a == b
  | .array a, .array b => sameItems a b
  | .object a, .object b => sameEntries a b
  | _, _ => false

def sameItems : List Json → List Json → Bool
  | [], [] => true
  | a :: as, b :: bs => same a b && sameItems as bs
  | _, _ => false

def sameEntries : Object → Object → Bool
  | [], [] => true
  | (key, a) :: as, (other, b) :: bs => key == other && same a b && sameEntries as bs
  | _, _ => false

end

mutual

/-- Every value equals itself, as there is no number that does not. -/
theorem same_refl : ∀ value : Json, value.same value = true
  | .null => rfl
  | .bool _ => BEq.rfl
  | .number (.integer _) => BEq.rfl
  | .number (.float x) => (beq_self_eq_true x.rank : x.same x = true)
  | .string _ => BEq.rfl
  | .array items => sameItems_refl items
  | .object entries => sameEntries_refl entries

theorem sameItems_refl : ∀ items : List Json, sameItems items items = true
  | [] => rfl
  | item :: rest => by rw [sameItems, same_refl item, sameItems_refl rest, Bool.and_self]

theorem sameEntries_refl : ∀ entries : Object, sameEntries entries entries = true
  | [] => rfl
  | (key, value) :: rest => by
    rw [sameEntries, beq_self_eq_true, same_refl value, sameEntries_refl rest, Bool.and_self,
      Bool.and_self]

end

mutual

/-- Every object in the value has its entries in order. -/
def Ordered : Json → Prop
  | .array items => OrderedItems items
  | .object entries => Object.Sorted entries ∧ OrderedEntries entries
  | _ => True

def OrderedItems : List Json → Prop
  | [] => True
  | item :: rest => Ordered item ∧ OrderedItems rest

def OrderedEntries : Object → Prop
  | [] => True
  | (_, value) :: rest => Ordered value ∧ OrderedEntries rest

end

def isNull : Json → Bool
  | .null => true
  | _ => false

/-- Whether a value is neither an array nor an object. -/
def isScalar : Json → Bool
  | .array _ | .object _ => false
  | _ => true

def string? : Json → Option String
  | .string value => some value
  | _ => none

def bool? : Json → Option Bool
  | .bool value => some value
  | _ => none

def object? : Json → Option Object
  | .object entries => some entries
  | _ => none

end Json

end Scim
