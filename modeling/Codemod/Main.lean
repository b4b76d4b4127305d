import Codemod.Command

/-!
# The program

Takes in the part of the file system that the command may look at, runs the
command on it, prints, and writes the files that have changed.
-/

namespace Codemod.Program

def canonical? (path : Path) : IO (Option Path) := do
  try
    return some (← IO.FS.realPath path).toString
  catch _ => return none

def locationOf (path : Path) : Location :=
  path.pieces.filterMap fun piece =>
    if Path.isStep piece then some (String.ofList piece) else none

def namesIn (directory : Path) : IO (List String) := do
  try
    let handle : IO.FS.DirEntry := { root := directory, fileName := "." }
    return (← handle.path.readDir).toList.map (·.fileName)
  catch _ => return []

/-- Takes in a path and all below it; links are followed. Directories that no walk enters are
taken in as empty, unless they are asked for. -/
partial def takeIn (tree : FileTree) : List (Path × Bool) → IO FileTree
  | [] => return tree
  | (path, asked) :: rest => do
    let some directory ← canonical? ((path.parent?).getD "/") | takeIn tree rest
    let name := (path.fileName?).getD []
    let location := locationOf directory ++ if name.isEmpty then [] else [String.ofList name]
    if !asked && (tree.entries.lookup location).isSome then takeIn tree rest
    else
      let entry : IO.FS.DirEntry := { root := directory, fileName := String.ofList name }
      let kind ← try pure (some (← entry.path.symlinkMetadata).type) catch _ => pure none
      match kind with
      | some .symlink =>
        let target ← canonical? location.path
        let tree := tree.insert location (.link (target.getD ""))
        takeIn tree ((target.map (·, asked)).toList ++ rest)
      | some .dir =>
        let tree := if location.isEmpty then tree else tree.insert location .directory
        let enter := asked || !Discovery.usualExcludes.contains (String.ofList name)
        let names ← if enter then namesIn location.path else pure []
        takeIn tree (names.map (fun name => (location.path.join name, false)) ++ rest)
      | some _ =>
        let bytes ← try IO.FS.readBinFile location.path catch _ => pure .empty
        takeIn (tree.insert location (.file bytes.toList)) rest
      | none => takeIn tree rest

def aboveOf (directory : Path) : List (Path × Bool) :=
  directory.ancestors.flatMap fun directory =>
    [(directory.join Settings.fileName, true), (directory.join Settings.manifestName, true),
     (directory.join ".gitignore", true), (directory.join ".git", false),
     ((directory.join ".git").join "info/exclude", true)]

def surroundings (arguments : List String) : IO FileTree := do
  let current : Path := (← IO.currentDir).toString
  let tree ← takeIn { current := locationOf current } (aboveOf current)
  match Arguments.read arguments with
  | .error _ => return tree
  | .ok arguments =>
    let tree ← takeIn tree ((arguments.config.map fun path => (current.join path, true)).toList)
    match Command.settings tree arguments with
    | .error _ => return tree
    | .ok found =>
      let root := current.join (Command.options arguments found.settings).root
      let above := match ← canonical? root with
        | some root => aboveOf root
        | none => []
      takeIn tree ((root, true) :: above)

def writeChanges (before after : FileTree) : IO Unit := do
  for (location, entry) in after.entries do
    match entry with
    | .file bytes =>
      unless before.entry? location = some entry do IO.FS.writeBinFile location.path bytes.toByteArray
    | _ => pure ()

def run (arguments : List String) : IO UInt32 := do
  let tree ← surroundings arguments
  let outcome := Command.run tree (← (← IO.getStdout).isTty) arguments
  writeChanges tree outcome.tree
  IO.print outcome.stdout
  IO.eprint outcome.stderr
  match outcome.code with
  | .ok code => return code.toUInt32
  | .error cause =>
    IO.eprintln ("Error: " ++ cause.message)
    return 1

end Codemod.Program

def main (arguments : List String) : IO UInt32 := Codemod.Program.run arguments
