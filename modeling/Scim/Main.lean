import Scim.Validator

/-!
# The validator as a program

Reads what stands at the path of the first argument and prints the report on it.
-/

namespace Scim.Validator

/-- Reads a file, or says why it cannot be read. -/
def readContent (file : IO.FS.DirEntry) : IO Content := do
  try
    return .text (← IO.FS.readFile file.path)
  catch error => return .unreadable (toString error)

def readInput (path : String) : IO Input := do
  let place : IO.FS.DirEntry := ⟨path, ""⟩
  match ← place.root.metadata.toBaseIO with
  | .error _ => return .missing
  | .ok metadata =>
    match metadata.type with
    | .file =>
      try
        return .file (.text (← IO.FS.readFile place.root))
      catch error => return .file (.unreadable (toString error))
    | .dir =>
      try
        let entries ← place.root.readDir
        return .directory (← entries.toList.mapM fun entry => do
          return (entry.fileName, ← readContent entry))
      catch error => return .unlistable (toString error)
    | _ => return .missing

end Scim.Validator

def main (arguments : List String) : IO UInt32 := do
  let report ←
    match arguments with
    | [] => pure (Scim.Validator.usage "schema-validator")
    | path :: _ => do pure (Scim.Validator.report path (← Scim.Validator.readInput path))
  IO.print report.stdout
  IO.eprint report.stderr
  return UInt32.ofNat report.exit
