import Codemod.Path
import Codemod.RuleGroup

/-!
# Command-line arguments

Arguments are read from left to right; the first problem, or the first request
for help or the version, ends the reading. A value stays pending until the
next option or positional argument is seen, and only then is it looked at.
-/

namespace Codemod

structure Arguments where
  path : Option Path := none
  config : Option Path := none
  extensions : List String := []
  excludeFolders : List String := []
  respectGitignore : Bool := false
  only : Option Category := none
  dryRun : Bool := false
  verbose : Bool := false
  deriving DecidableEq, Repr

namespace Arguments

inductive Slot
  | path
  | config
  | extension
  | excludeFolder
  | only
  deriving DecidableEq, Repr

def Slot.title : Slot → String
  | path => "[PATH]"
  | config => "--config <CONFIG>"
  | extension => "--ext <EXTENSIONS>"
  | excludeFolder => "--exclude-folder <EXCLUDE_FOLDERS>"
  | only => "--only <ONLY>"

inductive Switch
  | respectGitignore
  | dryRun
  | verbose
  | help
  | version
  deriving DecidableEq, Repr

def Switch.title : Switch → String
  | respectGitignore => "--respect-gitignore"
  | dryRun => "--dry-run"
  | verbose => "--verbose"
  | help => "--help"
  | version => "--version"

inductive Problem
  | unknown (argument : String)
  | missingValue (slot : Slot)
  | unknownCategory (value : String)
  | repeatedValue (slot : Slot)
  | repeatedSwitch (switch : Switch)
  | surplusValue (switch : Switch) (value : String)
  deriving DecidableEq, Repr

def Problem.message : Problem → String
  | unknown argument => "error: unexpected argument '" ++ argument ++ "' found"
  | missingValue slot => "error: a value is required for '" ++ slot.title ++ "' but none was supplied"
  | unknownCategory value => "error: invalid value '" ++ value ++ "' for '" ++ Slot.only.title ++ "'"
  | repeatedValue slot => "error: the argument '" ++ slot.title ++ "' cannot be used multiple times"
  | repeatedSwitch switch =>
    "error: the argument '" ++ switch.title ++ "' cannot be used multiple times"
  | surplusValue switch value =>
    "error: unexpected value '" ++ value ++ "' for '" ++ switch.title ++
      "' found; no more were expected"

inductive Stop
  | problem (cause : Problem)
  | help (long : Bool)
  | version
  deriving DecidableEq, Repr

inductive Spelling
  | separator
  | long (name : String) (value : Option String)
  | short (letters : List Char)
  | plain (text : String)
  deriving DecidableEq, Repr

/-- A lone dash is plain. -/
def Spelling.ofArgument (argument : String) : Spelling :=
  match argument.toList with
  | ['-', '-'] => separator
  | '-' :: '-' :: rest =>
    let name := String.ofList (rest.takeWhile (· != '='))
    match rest.dropWhile (· != '=') with
    | [] => long name none
    | _ :: value => long name (some (String.ofList value))
  | '-' :: letter :: letters => short (letter :: letters)
  | _ => plain argument

inductive Meaning
  | slot (slot : Slot)
  | switch (switch : Switch)
  deriving DecidableEq, Repr

def Meaning.ofLong? : String → Option Meaning
  | "config" => some (slot .config)
  | "ext" => some (slot .extension)
  | "exclude-folder" => some (slot .excludeFolder)
  | "exclude" => some (slot .excludeFolder)
  | "only" => some (slot .only)
  | "respect-gitignore" => some (switch .respectGitignore)
  | "dry-run" => some (switch .dryRun)
  | "verbose" => some (switch .verbose)
  | "help" => some (switch .help)
  | "version" => some (switch .version)
  | _ => none

def Switch.ofLetter? : Char → Option Switch
  | 'v' => some verbose
  | 'h' => some help
  | 'V' => some version
  | _ => none

/-- Puts a value into its slot. A single-valued option is taken once; an empty text is no value
for a path or a category. -/
def store (arguments : Arguments) (slot : Slot) (value : Option String) :
    Except Problem Arguments :=
  match value with
  | none => throw (.missingValue slot)
  | some value =>
    match slot with
    | .path =>
      if value = "" then throw (.missingValue slot)
      else pure { arguments with path := some value }
    | .config =>
      if arguments.config.isSome then throw (.repeatedValue slot)
      else if value = "" then throw (.missingValue slot)
      else pure { arguments with config := some value }
    | .extension => pure { arguments with extensions := arguments.extensions ++ [value] }
    | .excludeFolder =>
      pure { arguments with excludeFolders := arguments.excludeFolders ++ [value] }
    | .only =>
      if arguments.only.isSome then throw (.repeatedValue slot)
      else if value = "" then throw (.missingValue slot)
      else
        match Category.ofWord? value with
        | none => throw (.unknownCategory value)
        | some category => pure { arguments with only := some category }

def turnOn (arguments : Arguments) (switch : Switch) (long : Bool) : Except Stop Arguments :=
  match switch with
  | .respectGitignore =>
    if arguments.respectGitignore then throw (.problem (.repeatedSwitch switch))
    else pure { arguments with respectGitignore := true }
  | .dryRun =>
    if arguments.dryRun then throw (.problem (.repeatedSwitch switch))
    else pure { arguments with dryRun := true }
  | .verbose =>
    if arguments.verbose then throw (.problem (.repeatedSwitch switch))
    else pure { arguments with verbose := true }
  | .help => throw (.help long)
  | .version => throw .version

structure Pending where
  slot : Slot
  value : Option String := none
  deriving DecidableEq, Repr

structure Progress where
  arguments : Arguments := {}
  pending : Option Pending := none
  pathSeen : Bool := false
  separated : Bool := false
  deriving DecidableEq, Repr

namespace Progress

def settle (progress : Progress) : Except Stop Progress :=
  match progress.pending with
  | none => pure progress
  | some pending =>
    match progress.arguments.store pending.slot pending.value with
    | .error cause => throw (.problem cause)
    | .ok arguments => pure { progress with arguments, pending := none }

def positional (progress : Progress) (text : String) : Except Stop Progress := do
  if progress.pathSeen then throw (.problem (.unknown text))
  let progress ← progress.settle
  return { progress with pending := some ⟨.path, some text⟩, pathSeen := true }

/-- A plain text is the value of an option that still waits for one. -/
def plain (progress : Progress) (text : String) : Except Stop Progress :=
  match progress.pending with
  | some ⟨slot, none⟩ => pure { progress with pending := some ⟨slot, some text⟩ }
  | _ => progress.positional text

def switch (progress : Progress) (switch : Switch) (long : Bool) : Except Stop Progress := do
  let progress ← progress.settle
  return { progress with arguments := ← progress.arguments.turnOn switch long }

def long (progress : Progress) (name : String) (value : Option String) : Except Stop Progress :=
  match Meaning.ofLong? name, value with
  | none, _ => throw (.problem (.unknown ("--" ++ name)))
  | some (.switch switch), none => progress.switch switch true
  | some (.switch switch), some value => throw (.problem (.surplusValue switch value))
  | some (.slot slot), none => do
    return { ← progress.settle with pending := some ⟨slot, none⟩ }
  | some (.slot slot), some value => do
    settle { ← progress.settle with pending := some ⟨slot, some value⟩ }

def letter (progress : Progress) (letter : Char) : Except Stop Progress :=
  match Switch.ofLetter? letter with
  | none => throw (.problem (.unknown (String.ofList ['-', letter])))
  | some switch => progress.switch switch false

def read (progress : Progress) (argument : String) : Except Stop Progress :=
  if progress.separated then progress.positional argument
  else
    match Spelling.ofArgument argument with
    | .separator => pure { progress with separated := true }
    | .long name value => progress.long name value
    | .short letters => letters.foldlM letter progress
    | .plain text => progress.plain text

end Progress

def read (arguments : List String) : Except Stop Arguments := do
  let progress ← arguments.foldlM Progress.read {}
  return (← progress.settle).arguments

end Arguments

end Codemod
