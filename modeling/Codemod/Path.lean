import Codemod.Text.Offset
import Codemod.Text.Split

/-!
# Paths

A path is a text; slashes divide it into pieces. An empty piece or a lone dot
after the first piece names nothing, so a path can be spelled in several ways.
The operations keep the spelling of what they do not touch.
-/

namespace Codemod

abbrev Path := String

namespace Path

def pieces (path : Path) : List Text := Text.splitAt '/' path.toList

def ofPieces (pieces : List Text) : Path := String.ofList (Text.joinWith '/' pieces)

def isAbsolute (path : Path) : Bool :=
  match path.toList with
  | c :: _ => c == '/'
  | [] => false

/-- A piece that names something, or goes up. -/
def isStep (piece : Text) : Bool := piece ≠ [] && piece ≠ ['.']

def trimmed (pieces : List Text) : List Text := (pieces.reverse.dropWhile (!isStep ·)).reverse

/-- The path without its last step. There is none above an empty path or the top. -/
def parent? (path : Path) : Option Path :=
  match pieces path with
  | [] => none
  | first :: rest =>
    match (trimmed rest).reverse with
    | [] => if first = [] then none else some ""
    | _ :: above =>
      let kept := trimmed above.reverse
      if first = [] && kept = [] then some "/" else some (ofPieces (first :: kept))

def ancestors (path : Path) : List Path := go (pieces path).length path
where
  /-- A step up removes at least one piece, save for the last one to an empty path. -/
  go : Nat → Path → List Path
    | 0, path => [path]
    | n + 1, path =>
      match parent? path with
      | none => [path]
      | some above => path :: go n above

def fileName? (path : Path) : Option Text :=
  match pieces path with
  | [] => none
  | first :: rest =>
    let last := (trimmed rest).reverse.head?.getD first
    if isStep last && last ≠ ['.', '.'] then some last else none

/-- What follows the last dot of the file name. A name has none if its only dot comes first. -/
def extension? (path : Path) : Option Text := do
  let name ← fileName? path
  match (Text.splitAt '.' name).reverse with
  | ending :: before => if Text.joinWith '.' before.reverse = [] then none else some ending
  | [] => none

def join (base below : Path) : Path :=
  if isAbsolute below then below
  else if base.toList = [] || base.toList.getLast? = some '/' then base ++ below
  else base ++ "/" ++ below

/-- Whether the path is one of the spellings of a single relative name, `name/.` for instance. -/
def isJust (path : Path) (name : Text) : Bool :=
  match pieces path with
  | first :: rest => first = name && trimmed rest = []
  | [] => false

def dropCopies (start : Text) : Nat → Text → Text
  | 0, text => text
  | n + 1, text =>
    if start.isPrefixOf text then dropCopies start n (text.drop start.length) else text

def display (path : Path) : String :=
  let plain := dropCopies ['\\', '\\', '?', '\\'] path.toList.length path.toList
  match plain.map fun c => if c = '\\' then '/' else c with
  | '.' :: '/' :: rest => String.ofList rest
  | text => String.ofList text

end Path

end Codemod
