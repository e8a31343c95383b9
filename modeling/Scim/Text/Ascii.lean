/-!
# Names up to ASCII case

Attribute names, schema URNs and keywords are matched without regard to the case of the letters
`A`–`Z`, and of those letters only: `fold` is the form two such names share.
-/

namespace Scim.Text

/-- A name with its ASCII capitals made small. -/
def fold (name : String) : List Char := name.toList.map Char.toLower

def sameName (left right : String) : Bool := fold left == fold right

theorem sameName_iff {left right : String} : sameName left right = true ↔ fold left = fold right := by
  simp [sameName]

@[simp] theorem sameName_refl (name : String) : sameName name name = true := by
  simp [sameName]

theorem sameName_comm (left right : String) : sameName left right = sameName right left := by
  simp only [sameName, Bool.beq_comm]

/-- The name itself, in small ASCII letters. -/
def lowerAscii (name : String) : String := String.ofList (fold name)

end Scim.Text
