import Codemod.Text.Offset

/-!
# Documents

The data of a settings file, whatever its format. Numbers and dates are kept
without their value: no setting is one.
-/

namespace Codemod

inductive Document
  | null
  | bool (value : Bool)
  | number
  | date
  | text (value : String)
  | list (items : List Document)
  | table (fields : List (String × Document))
  deriving Repr

namespace Document

def put {α : Type} (key : String) (value : α) : List (String × α) → List (String × α)
  | [] => [(key, value)]
  | (other, old) :: rest =>
    if other = key then (key, value) :: rest else (other, old) :: put key value rest

end Document

end Codemod
