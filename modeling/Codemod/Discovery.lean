import Codemod.Discovery.Ignoring

/-!
# Discovery

The source files below a root, in depth-first order with the names of each
directory sorted. Links are followed. Below the root, hidden entries are
skipped and so are the directories on the exclusion list; the root itself is
never skipped.
-/

namespace Codemod

namespace Discovery

structure Options where
  extensions : List String := ["ts"]
  excludeFolders : List String := []
  respectGitignore : Bool := false
  deriving DecidableEq, Repr

def usualExcludes : List String := [".git", ".next", "build", "dist", "node_modules"]

/-- `*.end` excludes the names with that ending; anything else is a whole name. -/
def matchesExclude (name exclude : String) : Bool :=
  match exclude.toList with
  | '*' :: ending => ending.head? = some '.' && ending.isSuffixOf name.toList
  | whole => name.toList = whole

def isExcluded (name : String) (excludes : List String) : Bool :=
  excludes.any (matchesExclude name)

inductive Trouble
  | unreachable (path : Path) (cause : FileError)
  /-- A link leads back to a directory that is being walked. -/
  | loop (link ancestor : Path)
  | ignoreFiles (problems : List String)
  deriving DecidableEq, Repr

def Trouble.reason : FileError → String
  | .notFound => "No such file or directory (os error 2)"
  | .notADirectory => "Not a directory (os error 20)"
  | .isADirectory => "Is a directory (os error 21)"
  | .notText => "stream did not contain valid UTF-8"
  | .tooManyLinks => "Too many levels of symbolic links (os error 40)"

def Trouble.message : Trouble → String
  | unreachable path cause =>
    path ++ ": IO error for operation on " ++ path ++ ": " ++ reason cause
  | loop link ancestor =>
    "File system loop found: " ++ link ++ " points to an ancestor " ++ ancestor
  | ignoreFiles problems => "\n".intercalate problems

inductive Finding
  | file (path : Path)
  | trouble (cause : Trouble)
  deriving DecidableEq, Repr

structure OpenDirectory where
  path : Path
  location : Location
  deriving DecidableEq, Repr

inductive Sighting
  | directory (location : Location)
  | file
  | trouble (cause : Trouble)
  deriving DecidableEq, Repr

/-- Looks at a path. A link must not lead to a directory that is open; the innermost such
directory is named. -/
def look (tree : FileTree) (opened : List OpenDirectory) (path : Path) : Sighting :=
  match tree.locateLink path, tree.locate path with
  | .error cause, _ => .trouble (.unreachable path cause)
  | .ok _, .error cause => .trouble (.unreachable path cause)
  | .ok place, .ok location =>
    if !tree.isDirectoryAt location then .file
    else if place = location then .directory location
    else
      match opened.find? (·.location = location) with
      | some ancestor => .trouble (.loop path ancestor.path)
      | none => .directory location

def isSkipped (options : Options) (ignoring : Option Ignoring) (path : Path) (name : String)
    (isDirectory : Bool) : Bool :=
  let hidden := match ignoring.bind (·.keeps? path isDirectory) with
    | some keeps => !keeps
    | none => name.toList.head? = some '.'
  hidden || (isDirectory && isExcluded name (usualExcludes ++ options.excludeFolders))

def isWanted (options : Options) (path : Path) : Bool :=
  match path.extension? with
  | none => false
  | some extension => options.extensions.contains (String.ofList extension)

def below (tree : FileTree) (options : Options) : (depth : Nat) → List OpenDirectory →
    Option Ignoring → Path → Location → List Finding
  | 0, _, _, _, _ => []
  | depth + 1, opened, ignoring, path, location =>
    let opened := ⟨path, location⟩ :: opened
    let ignoring := ignoring.map (·.enter tree path)
    (tree.namesIn location).flatMap fun name =>
      let child := path.join name
      match look tree opened child with
      | .trouble cause => [.trouble cause]
      | .file =>
        if isSkipped options ignoring child name false then []
        else if isWanted options child then [.file child]
        else []
      | .directory location =>
        if isSkipped options ignoring child name true then []
        else below tree options depth opened ignoring child location

/-- No walk is deeper. A link is only followed to a directory that is not open, so at most as many
links lie on the way to an entry as there are entries; and from one link to the next the way goes
down the tree. -/
def depthBound (tree : FileTree) : Nat :=
  (tree.entries.length + 2) * (tree.entries.length + 2)

/-- All findings of a walk. A root that is a lone dash means the standard input, and has none. -/
def findings (tree : FileTree) (options : Options) (root : Path) : List Finding :=
  if root.isJust ['-'] then []
  else
    match look tree [] root with
    | .trouble cause => [.trouble cause]
    | .file => if isWanted options root then [.file root] else []
    | .directory location =>
      let ignoring := if options.respectGitignore then some (Ignoring.ofRoot tree root) else none
      let problems := (ignoring.map (·.problems)).getD []
      (if problems.isEmpty then [] else [.trouble (.ignoreFiles problems)]) ++
        below tree options (depthBound tree) [] ignoring root location

def filesOf (findings : List Finding) : List Path :=
  findings.filterMap fun
    | .file path => some path
    | .trouble _ => none

def troublesOf (findings : List Finding) : List Trouble :=
  findings.filterMap fun
    | .file _ => none
    | .trouble cause => some cause

def files (tree : FileTree) (options : Options) (root : Path) : List Path :=
  filesOf (findings tree options root)

def troubleLog (troubles : List Trouble) : String :=
  String.join (troubles.map fun cause => "Walk error: " ++ cause.message ++ "\n")

end Discovery

end Codemod
