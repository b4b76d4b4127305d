import Codemod.IgnoreFile

/-!
# Ignored paths of a repository

Each directory on the way to an entry may have ignore files: `.gitignore`, and
the exclude file of a repository. They count if some directory on the way or
above the root of the walk is a repository; of those, the innermost is the last
that is asked. The first directory whose rules decide wins, and ignore files
win over exclude files.
-/

namespace Codemod

structure IgnoreLevel where
  /-- The path that the globs are relative to. -/
  base : Path
  ignores : IgnoreFile
  excludes : IgnoreFile
  isRepository : Bool
  deriving Repr

namespace IgnoreLevel

def ofDirectory (tree : FileTree) (path : Path) : IgnoreLevel where
  base := path
  ignores := IgnoreFile.load tree (path.join ".gitignore")
  excludes := IgnoreFile.load tree ((path.join ".git").join "info/exclude")
  isRepository := tree.has (path.join ".git")

def problems (level : IgnoreLevel) : List String :=
  level.ignores.problems.map (·.message (level.base.join ".gitignore")) ++
    level.excludes.problems.map (·.message ((level.base.join ".git").join "info/exclude"))

end IgnoreLevel

/-- The ignore files that a walk knows of in one directory. -/
structure Ignoring where
  root : Path
  absoluteRoot : Path
  /-- From the directory up to the root. -/
  below : List IgnoreLevel := []
  /-- From the directory above the root up to the top. -/
  above : List IgnoreLevel := []
  deriving Repr

namespace Ignoring

def dropStart (start text : Text) : Text :=
  if start.isPrefixOf text then text.drop start.length else text

def relative (base : Path) (path : Text) : Text :=
  let path := dropStart ['.', '/'] path
  let base : Path := String.ofList (dropStart ['.', '/'] base.toList)
  if base.isJust ['.'] || !path.contains '/' then path
  else if base.toList.isPrefixOf path then dropStart ['/'] (path.drop base.toList.length)
  else path

def absolute (ignoring : Ignoring) (path : Text) : Text :=
  let below :=
    if ignoring.root.isJust ['.'] then path
    else dropStart ['/'] (dropStart (dropStart ['.', '/'] ignoring.root.toList) path)
  (ignoring.absoluteRoot.join (String.ofList below)).toList

/-- The first answer, going outward up to a repository. Each level comes with the path that it is
asked about. -/
def firstAnswer (file : IgnoreLevel → IgnoreFile) (isDirectory : Bool) :
    List (IgnoreLevel × Text) → Option Bool
  | [] => none
  | (level, path) :: rest =>
    match (file level).keeps? path isDirectory with
    | some keeps => some keeps
    | none => if level.isRepository then none else firstAnswer file isDirectory rest

def keeps? (ignoring : Ignoring) (path : Path) (isDirectory : Bool) : Option Bool :=
  let walked := dropStart ['.', '/'] path.toList
  let absolute := ignoring.absolute walked
  let levels :=
    ignoring.below.map (fun level => (level, relative level.base walked)) ++
      ignoring.above.map (fun level => (level, relative level.base absolute))
  if levels.any (·.1.isRepository) then
    firstAnswer (·.ignores) isDirectory levels <|> firstAnswer (·.excludes) isDirectory levels
  else none

def ofRoot (tree : FileTree) (root : Path) : Ignoring :=
  match tree.locate root with
  | .error _ => { root, absoluteRoot := root }
  | .ok location =>
    let absoluteRoot := location.path
    { root, absoluteRoot
      above := absoluteRoot.ancestors.tail.map (IgnoreLevel.ofDirectory tree) }

def enter (ignoring : Ignoring) (tree : FileTree) (path : Path) : Ignoring :=
  { ignoring with below := IgnoreLevel.ofDirectory tree path :: ignoring.below }

def problems (ignoring : Ignoring) : List String := ignoring.above.reverse.flatMap (·.problems)

end Ignoring

end Codemod
