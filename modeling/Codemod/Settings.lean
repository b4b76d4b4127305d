import Codemod.Document
import Codemod.EnumTable
import Codemod.Path

/-!
# Settings

What a project sets for the tool. In a document the settings are a table with
a key for each; keys that are not known are ignored. They may also be a list of
the values in the order of the fields below, of which the last may be missing.
-/

namespace Codemod

structure Settings where
  root : Option Path := none
  extensions : Option (List String) := none
  excludeFolders : Option (List String) := none
  respectGitignore : Option Bool := none
  module : Option String := none
  fallbackType : Option String := none
  extraEnums : List (String × List String) := []
  deriving DecidableEq, Repr

namespace Settings

def table (settings : Settings) : Except RuleError EnumTable :=
  let start := EnumTable.builtIn
  { start with
    module := settings.module.getD start.module
    fallbackType := settings.fallbackType.getD start.fallbackType }.registerAll settings.extraEnums

def text? : Document → Option String
  | .text value => some value
  | _ => none

def flag? : Document → Option Bool
  | .bool value => some value
  | _ => none

def texts? : Document → Option (List String)
  | .list items => items.mapM text?
  | _ => none

def enums? : Document → Option (List (String × List String))
  | .table fields => do
    let enums ← fields.mapM fun (name, values) => do return (name, ← texts? values)
    return enums.mergeSort fun a b => a.1 ≤ b.1
  | _ => none

def optional? {α : Type} (read : Document → Option α) : Option Document → Option (Option α)
  | none => some none
  | some .null => some none
  | some document => (read document).map some

def ofParts? (root extensions excludeFolders respectGitignore module fallbackType extraEnums :
    Option Document) : Option Settings := do
  return {
    root := ← optional? text? root
    extensions := ← optional? texts? extensions
    excludeFolders := ← optional? texts? excludeFolders
    respectGitignore := ← optional? flag? respectGitignore
    module := ← optional? text? module
    fallbackType := ← optional? text? fallbackType
    extraEnums := ← match extraEnums with
      | none => some []
      | some document => enums? document }

/-- The list form has six or seven values; whether more may follow depends on the format. A date
counts as a table without any of the keys. -/
def ofDocument? (surplus : Bool) : Document → Option Settings
  | .table fields =>
    ofParts? (fields.lookup "root") (fields.lookup "extensions") (fields.lookup "exclude_folders")
      (fields.lookup "respect_gitignore") (fields.lookup "module") (fields.lookup "fallback_type")
      (fields.lookup "extra_enum_values")
  | .list (a :: b :: c :: d :: e :: f :: rest) =>
    if 1 < rest.length && !surplus then none
    else ofParts? (some a) (some b) (some c) (some d) (some e) (some f) rest.head?
  | .date => some {}
  | _ => none

end Settings

end Codemod
