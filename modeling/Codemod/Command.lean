import Codemod.Arguments.Help
import Codemod.Migration
import Codemod.RuleSet.Written
import Codemod.Settings.Search

/-!
# The command

Arguments and settings together say what to run: an argument wins over a
setting, and a setting over what is built in. Folders to skip are added up.
-/

namespace Codemod

namespace Command

inductive Failure
  | settings (path : Path) (cause : SettingsError)
  | rules (cause : RuleError)
  | migration (cause : Migration.Failure)
  deriving DecidableEq, Repr

def Failure.message : Failure → String
  | settings path cause => cause.message path
  | rules cause => cause.message
  | migration cause => cause.message

structure Outcome where
  tree : FileTree
  stdout : String := ""
  stderr : String := ""
  /-- The exit code, if there is no failure. -/
  code : Except Failure Nat := .ok 0

def settings (tree : FileTree) (arguments : Arguments) : Except Failure Settings.Found :=
  match arguments.config with
  | some path =>
    match Settings.load tree path with
    | .error cause => throw (.settings path cause)
    | .ok settings => pure { settings, path := some path }
  | none => pure (Settings.search tree tree.current.path)

def bareExtension (extension : String) : String :=
  String.ofList (extension.toList.dropWhile (· == '.'))

def options (arguments : Arguments) (settings : Settings) : Migration.Options :=
  let preset : Migration.Options := {}
  let extensions :=
    if arguments.extensions.isEmpty then
      settings.extensions.getD preset.discovery.extensions
    else arguments.extensions
  { root := (arguments.path <|> settings.root).getD preset.root
    discovery := {
      extensions := extensions.map bareExtension
      excludeFolders := settings.excludeFolders.getD [] ++ arguments.excludeFolders
      respectGitignore := arguments.respectGitignore || settings.respectGitignore.getD false }
    categories := arguments.only.elim Category.all fun category => [category]
    dryRun := arguments.dryRun
    verbose := arguments.verbose }

def settingsLog (found : Settings.Found) (color : Bool) : String :=
  "[VERBOSE] prismafix v" ++ Arguments.version ++ "\n" ++
    "[VERBOSE] Config: " ++ (found.path.map Path.display).getD "built-in defaults" ++ "\n" ++
    String.join (found.warnings.map fun warning =>
      Report.yellow color "[WARN]" ++ " " ++ warning.message ++ "\n")

def migrate (tree : FileTree) (color : Bool) (arguments : Arguments) : Outcome :=
  match settings tree arguments with
  | .error cause => { tree, code := .error cause }
  | .ok found =>
    let settingsLog := if arguments.verbose then settingsLog found color else ""
    match found.settings.table >>= RuleSet.read with
    | .error cause => { tree, stderr := settingsLog, code := .error (.rules cause) }
    | .ok rules =>
      let options := options arguments found.settings
      let run := Migration.run rules options tree
      { tree := run.progress.tree
        stdout := run.stdout options color
        stderr := settingsLog ++ run.log options color
        code := match run.progress.failure with
          | some cause => .error (.migration cause)
          | none => .ok 0 }

def run (tree : FileTree) (color : Bool) (arguments : List String) : Outcome :=
  match Arguments.read arguments with
  | .error (.problem cause) => { tree, stderr := cause.message ++ "\n", code := .ok 1 }
  | .error (.help long) => { tree, stdout := Arguments.helpText long }
  | .error .version => { tree, stdout := Arguments.versionText }
  | .ok arguments => migrate tree color arguments

end Command

end Codemod
