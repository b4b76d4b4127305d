import Codemod.Discovery
import Codemod.Report
import Codemod.RuleSet

/-!
# Migrations

A migration runs rule groups over every source file below a root, one file
after the other. It writes each group's result before the next group reads it;
a dry run hands the text on instead and writes nothing. The first failure ends
the run, and files that are already written stay so.
-/

namespace Codemod

namespace Migration

variable {ρ : Type} [PatternLanguage ρ]

structure Options where
  root : Path := "src/app/api"
  discovery : Discovery.Options := {}
  categories : List Category := Category.all
  dryRun : Bool := false
  verbose : Bool := false
  deriving DecidableEq, Repr

inductive Failure
  | unreadable (path : Path) (cause : FileError)
  | unwritable (path : Path) (cause : FileError)
  | notApplied (category : Category) (path : Path) (cause : EditError)
  deriving DecidableEq, Repr

def Failure.message : Failure → String
  | unreadable path _ => "Failed to read " ++ path
  | unwritable path _ => "Failed to write " ++ path
  | notApplied category path _ => "Failed to apply " ++ category.tag ++ " rules to " ++ path

def readSource (tree : FileTree) (path : Path) : Except Failure Text :=
  (tree.readText path).mapError (.unreadable path)

def applyGroup (group : RuleGroup ρ) (path : Path) (source : Text) :
    Except Failure (Option Revision) :=
  (group.apply source).mapError (.notApplied group.category path)

/-- Runs one group over one file, and writes the file only if it changes. -/
def fixFile (tree : FileTree) (path : Path) (group : RuleGroup ρ) :
    Except Failure (Option Revision × FileTree) := do
  let source ← readSource tree path
  match ← applyGroup group path source with
  | none => return (none, tree)
  | some revision =>
    let tree ← (tree.writeText path revision.content).mapError (.unwritable path)
    return (some revision, tree)

/-- What the groups make of one file, up to the first failure. -/
structure Passes where
  revisions : List (Category × Option Revision) := []
  failure : Option Failure := none
  deriving DecidableEq, Repr

def Passes.cons (category : Category) (revision : Option Revision) (passes : Passes) : Passes :=
  { passes with revisions := (category, revision) :: passes.revisions }

def fixPasses (rules : RuleSet ρ) (path : Path) : List Category → FileTree → Passes × FileTree
  | [], tree => ({}, tree)
  | category :: rest, tree =>
    match fixFile tree path (rules.group category) with
    | .error cause => ({ failure := some cause }, tree)
    | .ok (revision, tree) =>
      let (passes, tree) := fixPasses rules path rest tree
      (passes.cons category revision, tree)

def stagedSource (tree : FileTree) (path : Path) : Option Text → Except Failure Text
  | some text => pure text
  | none => readSource tree path

/-- Runs groups over one file without writing; each is handed what the one before has made. -/
def dryPasses (rules : RuleSet ρ) (tree : FileTree) (path : Path) :
    List Category → Option Text → Passes × Option Text
  | [], staged => ({}, staged)
  | category :: rest, staged =>
    match stagedSource tree path staged with
    | .error cause => ({ failure := some cause }, none)
    | .ok source =>
      match applyGroup (rules.group category) path source with
      | .error cause => ({ failure := some cause }, none)
      | .ok revision =>
        let next := (revision.map (·.content)).getD source
        let (passes, staged) := dryPasses rules tree path rest (some next)
        (passes.cons category revision, staged)

def filePasses (rules : RuleSet ρ) (options : Options) (tree : FileTree) (path : Path) :
    Passes × FileTree :=
  if options.dryRun then ((dryPasses rules tree path options.categories none).1, tree)
  else fixPasses rules path options.categories tree

structure Fix where
  file : Path
  category : Category
  revision : Revision
  deriving DecidableEq, Repr

structure Tally where
  filesScanned : Nat
  enumFiles : Nat := 0
  typeFiles : Nat := 0
  fixes : List Fix := []
  deriving DecidableEq, Repr

def Tally.record (tally : Tally) (fix : Fix) : Tally :=
  match fix.category with
  | .enums => { tally with enumFiles := tally.enumFiles + 1, fixes := tally.fixes ++ [fix] }
  | .types => { tally with typeFiles := tally.typeFiles + 1, fixes := tally.fixes ++ [fix] }

structure Progress where
  tree : FileTree
  tally : Tally
  printed : String
  failure : Option Failure := none

namespace Progress

def fixes (progress : Progress) : List Fix := progress.tally.fixes

def announce (path : Path) (progress : Progress) : Category × Option Revision → Progress
  | (_, none) => progress
  | (category, some revision) =>
    { progress with
      tally := progress.tally.record ⟨path, category, revision⟩
      printed := progress.printed ++ Report.fixNotice category path }

def finish (progress : Progress) : Progress :=
  match progress.failure with
  | some _ => progress
  | none =>
    { progress with printed :=
        progress.printed ++ Report.summary progress.tally.enumFiles progress.tally.typeFiles }

end Progress

def runFiles (rules : RuleSet ρ) (options : Options) : List Path → Progress → Progress
  | [], progress => progress
  | path :: rest, progress =>
    let (passes, tree) := filePasses rules options progress.tree path
    let progress := passes.revisions.foldl (Progress.announce path) { progress with tree }
    match passes.failure with
    | some cause => { progress with failure := some cause }
    | none => runFiles rules options rest progress

/-- A run: what was found, and what was done with it. -/
structure Run where
  findings : List Discovery.Finding
  progress : Progress

def run (rules : RuleSet ρ) (options : Options) (tree : FileTree) : Run :=
  let findings := Discovery.findings tree options.discovery options.root
  let files := Discovery.filesOf findings
  let start : Progress :=
    { tree, tally := { filesScanned := files.length }, printed := Report.header files.length }
  { findings, progress := (runFiles rules options files start).finish }

namespace Run

def filesScanned (run : Run) : Nat := run.progress.tally.filesScanned

def filesFixed (run : Run) : Category → Nat
  | .enums => run.progress.tally.enumFiles
  | .types => run.progress.tally.typeFiles

def stdout (run : Run) (options : Options) (color : Bool) : String :=
  (if options.dryRun then Report.dryRunNotice color else "") ++ run.progress.printed

/-- A list of texts in quotes. Quotes, backslashes and what would not be visible are escaped. -/
def quotedList (texts : List String) : String :=
  "[" ++ ", ".intercalate (texts.map quoted) ++ "]"
where
  escaped (c : Char) : String :=
    if c = '"' then "\\\"" else if c = '\\' then "\\\\"
    else if c = '\n' then "\\n" else if c = '\r' then "\\r" else if c = '\t' then "\\t"
    else if c.toNat = 0 then "\\0"
    else if c.toNat < 0x20 || (0x7F ≤ c.toNat && c.toNat < 0xA0) ||
        (c ≠ ' ' && Text.isWhiteSpace c) then
      "\\u\x7b" ++ String.ofList (Nat.toDigits 16 c.toNat) ++ "\x7d"
    else c.toString
  quoted (text : String) : String := "\"" ++ String.join (text.toList.map escaped) ++ "\""

def log (run : Run) (options : Options) (color : Bool) : String :=
  if options.verbose then
    "[VERBOSE] Search root: " ++ options.root.display ++ "\n" ++
      "[VERBOSE] Extensions: " ++ quotedList options.discovery.extensions ++ "\n" ++
      "[VERBOSE] Rule groups: [" ++ ", ".intercalate (options.categories.map (·.title)) ++ "]\n" ++
      Discovery.troubleLog (Discovery.troublesOf run.findings) ++
      String.join (run.progress.fixes.map fun fix =>
        Report.hitLog color fix.category fix.file fix.revision)
  else ""

end Run

end Migration

end Codemod
