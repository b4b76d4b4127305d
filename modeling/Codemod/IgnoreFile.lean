import Codemod.FileTree
import Codemod.Glob
import Codemod.Text.WhiteSpace

/-!
# Ignore files

A line of an ignore file is a glob that says which paths are ignored, or kept
if an exclamation mark comes first. The last line that fits a path decides. A
glob without a slash fits at any depth; a slash at its end restricts it to
directories. Lines whose glob is malformed do not count.
-/

namespace Codemod

structure IgnoreRule where
  glob : Glob
  keeps : Bool := false
  onlyDirectories : Bool := false
  deriving Repr

namespace IgnoreRule

/-- Blanks at the end do not count, unless the last one is escaped. -/
def trimEnd (line : Text) : Text :=
  if ['\\', ' '].isSuffixOf line then line
  else (line.reverse.dropWhile Text.isWhiteSpace).reverse

/-- The line without its leading marks: whether it keeps paths, whether it is bound to the
directory of the file, and the rest. -/
def marks : Text → Bool × Bool × Text
  | '\\' :: '!' :: rest => (false, false, '!' :: rest)
  | '\\' :: '#' :: rest => (false, false, '#' :: rest)
  | '!' :: '/' :: rest => (true, true, rest)
  | '!' :: rest => (true, false, rest)
  | '/' :: rest => (false, true, rest)
  | line => (false, false, line)

def dropLastSlash (line : Text) : Text × Bool :=
  match line.reverse with
  | '/' :: '\\' :: rest => (rest.reverse, true)
  | '/' :: rest => (rest.reverse, true)
  | _ => (line, false)

def atAnyDepth (bound : Bool) (glob : Text) : Text :=
  if bound || glob.contains '/' || glob = ['*', '*'] then glob else ['*', '*', '/'] ++ glob

def strictlyBelow (glob : Text) : Text :=
  if ['/', '*', '*'].isSuffixOf glob then glob ++ ['/', '*'] else glob

def read (line : Text) : Except GlobError (Option IgnoreRule) := do
  if line.head? = some '#' then return none
  let line := trimEnd line
  if line.isEmpty then return none
  let (keeps, bound, rest) := marks line
  let (glob, onlyDirectories) := dropLastSlash rest
  let glob ← Glob.read (strictlyBelow (atAnyDepth bound glob))
  return some { glob, keeps, onlyDirectories }

def applies (rule : IgnoreRule) (path : Text) (isDirectory : Bool) : Bool :=
  (!rule.onlyDirectories || isDirectory) && rule.glob.covers path

end IgnoreRule

structure IgnoreProblem where
  number : Nat
  line : Text
  cause : GlobError
  deriving Repr

def IgnoreProblem.message (file : Path) (problem : IgnoreProblem) : String :=
  file ++ ": line " ++ toString problem.number ++ ": error parsing glob '" ++
    String.ofList problem.line ++ "': " ++ problem.cause.message

structure IgnoreFile where
  rules : List IgnoreRule := []
  problems : List IgnoreProblem := []
  deriving Repr

namespace IgnoreFile

/-- The lines up to the first that is not UTF-8, without their line breaks. -/
def lines (bytes : List UInt8) : List Text :=
  let pieces := Text.splitAt 10 bytes
  let pieces := if pieces.getLast? = some [] then pieces.dropLast else pieces
  let texts := pieces.map fun piece =>
    let piece := if piece.getLast? = some 13 then piece.dropLast else piece
    (FileTree.decode piece).toOption
  (texts.takeWhile Option.isSome).filterMap id

/-- Byte order marks before the first line do not count. -/
def dropMarks : List Text → List Text
  | [] => []
  | first :: rest => first.dropWhile (· == '\uFEFF') :: rest

def ofLines : Nat → List Text → IgnoreFile
  | _, [] => {}
  | number, line :: rest =>
    let file := ofLines (number + 1) rest
    match IgnoreRule.read line with
    | .ok none => file
    | .ok (some rule) => { file with rules := rule :: file.rules }
    | .error cause =>
      { file with problems := ⟨number, IgnoreRule.trimEnd line, cause⟩ :: file.problems }

def ofBytes (bytes : List UInt8) : IgnoreFile := ofLines 1 (dropMarks (lines bytes))

def load (tree : FileTree) (path : Path) : IgnoreFile :=
  match tree.readBytes path with
  | .ok bytes => ofBytes bytes
  | .error _ => {}

def keeps? (file : IgnoreFile) (path : Text) (isDirectory : Bool) : Option Bool :=
  (file.rules.reverse.find? (·.applies path isDirectory)).map (·.keeps)

end IgnoreFile

end Codemod
