import Codemod.Document.Json
import Codemod.Document.Toml
import Codemod.FileTree
import Codemod.Settings

/-!
# Finding the settings of a project

Settings stand in a file of their own or in a section of the package manifest.
A search looks into a directory and those above it, into the file of its own
first; a file that cannot be used is passed over with a warning. A file that is
named is used or refused.
-/

namespace Codemod

inductive SettingsError
  | unreadable (cause : FileError)
  | malformed
  | noSection
  deriving DecidableEq, Repr

def SettingsError.message (path : Path) : SettingsError → String
  | unreadable _ => "Failed to read config file " ++ path
  | malformed => "Invalid config in " ++ path
  | noSection => "No \"prismafix\" section in " ++ path

structure SettingsWarning where
  path : Path
  cause : SettingsError
  deriving DecidableEq, Repr

/-- Without the reason that the reader of the file gives, which would follow after a colon. -/
def SettingsWarning.message (warning : SettingsWarning) : String := "Ignoring " ++ warning.path

namespace Settings

def fileName : String := ".prismafix.toml"

def manifestName : String := "package.json"

def sectionName : String := "prismafix"

/-- The file of its own need not have the section; then it sets nothing. -/
def ofToml (text : Text) : Except SettingsError Settings :=
  match Document.ofToml? text with
  | some (.table fields) =>
    match fields.lookup sectionName with
    | none => pure {}
    | some document => (ofDocument? true document).elim (throw .malformed) pure
  | _ => throw .malformed

def ofManifest (text : Text) : Except SettingsError Settings :=
  match Document.ofJson? text with
  | none => throw .malformed
  | some (.table fields) =>
    match fields.lookup sectionName with
    | none => throw .noSection
    | some document => (ofDocument? false document).elim (throw .malformed) pure
  | some _ => throw .noSection

inductive Form
  | ownFile
  | manifest
  deriving DecidableEq, Repr

namespace Form

def all : List Form := [ownFile, manifest]

def fileName : Form → String
  | ownFile => Settings.fileName
  | manifest => manifestName

def read : Form → Text → Except SettingsError Settings
  | ownFile => ofToml
  | manifest => ofManifest

def ofPath (path : Path) : Form :=
  if path.fileName? = some manifestName.toList then manifest else ownFile

end Form

def loadAs (tree : FileTree) (form : Form) (path : Path) : Except SettingsError Settings :=
  match tree.readText path with
  | .error cause => throw (.unreadable cause)
  | .ok text => form.read text

def load (tree : FileTree) (path : Path) : Except SettingsError Settings :=
  loadAs tree (.ofPath path) path

structure Found where
  settings : Settings := {}
  path : Option Path := none
  warnings : List SettingsWarning := []
  deriving DecidableEq, Repr

structure Candidate where
  form : Form
  path : Path
  deriving DecidableEq, Repr

/-- The first file that gives settings. A manifest without the section counts as absent. -/
def firstOf (tree : FileTree) : List Candidate → Found
  | [] => {}
  | ⟨form, path⟩ :: rest =>
    if !tree.has path then firstOf tree rest
    else
      match loadAs tree form path with
      | .ok settings => { settings, path := some path }
      | .error .noSection => firstOf tree rest
      | .error cause =>
        let found := firstOf tree rest
        { found with warnings := ⟨path, cause⟩ :: found.warnings }

def candidatesIn (directory : Path) : List Candidate :=
  Form.all.map fun form => ⟨form, directory.join form.fileName⟩

def startDirectory (tree : FileTree) (start : Path) : Path :=
  if tree.isFile start then start.parent?.getD start else start

def search (tree : FileTree) (start : Path) : Found :=
  firstOf tree ((startDirectory tree start).ancestors.flatMap candidatesIn)

end Settings

end Codemod
