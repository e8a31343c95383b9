/-!
# Positions in bytes

Lengths and positions in a text are counted in the bytes of its UTF-8 form.
-/

namespace Scim.Text

/-- The length in bytes of the UTF-8 form of some characters. -/
def byteLength : List Char → Nat
  | [] => 0
  | c :: rest => c.utf8Size + byteLength rest

@[simp] theorem byteLength_nil : byteLength [] = 0 := rfl

@[simp] theorem byteLength_cons (c : Char) (rest : List Char) :
    byteLength (c :: rest) = c.utf8Size + byteLength rest := rfl

@[simp] theorem byteLength_append (front back : List Char) :
    byteLength (front ++ back) = byteLength front + byteLength back := by
  induction front with
  | nil => simp
  | cons c rest ih => simp [ih, Nat.add_assoc]

/-- The bytes of a text are the bytes of its characters. -/
theorem byteLength_ofList (text : List Char) : byteLength text = (String.ofList text).utf8ByteSize := by
  induction text with
  | nil => simp
  | cons c rest ih =>
    have split : String.ofList (c :: rest) = String.singleton c ++ String.ofList rest := by
      rw [String.singleton_eq_ofList, ← String.ofList_append]
      rfl
    rw [byteLength_cons, ih, split, String.utf8ByteSize_append, String.utf8ByteSize_singleton]

@[simp] theorem byteLength_toList (text : String) : byteLength text.toList = text.utf8ByteSize := by
  rw [byteLength_ofList, String.ofList_toList]

end Scim.Text
