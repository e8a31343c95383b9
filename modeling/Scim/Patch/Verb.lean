import Scim.Text.Ascii

/-!
# Verbs of patch operations
-/

namespace Scim

inductive PatchVerb where
  | add
  | remove
  | replace
  deriving DecidableEq

namespace PatchVerb

def keyword : PatchVerb → String
  | .add => "add"
  | .remove => "remove"
  | .replace => "replace"

/-- The verb with a given name, in any ASCII case. -/
def ofKeyword? (word : String) : Option PatchVerb :=
  [add, remove, replace].find? fun verb => Text.sameName verb.keyword word

def parse (word : String) : Except String PatchVerb :=
  match ofKeyword? word with
  | some verb => .ok verb
  | none => .error ("unsupported patch operation '" ++ word ++ "'")

end PatchVerb

end Scim
