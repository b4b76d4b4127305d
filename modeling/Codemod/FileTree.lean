import Codemod.Path

/-!
# File trees

Directories, files and symbolic links under one top, with a working directory.
A path leads to a location: links on the way are followed, `..` leaves a
directory, and every piece but the last has to lead to a directory.

Names are texts. A file whose name is not UTF-8 has no place in a tree.
-/

namespace Codemod

/-- Names from the top down. -/
abbrev Location := List String

def Location.path (location : Location) : Path :=
  if location = [] then "/" else String.join (location.map ("/" ++ ·))

inductive FileTree.Entry
  | directory
  | file (bytes : List UInt8)
  | link (target : Path)
  deriving DecidableEq, Repr

structure FileTree where
  /-- One entry for a location; the top needs none. -/
  entries : List (Location × FileTree.Entry) := []
  current : Location := []
  deriving DecidableEq, Repr

inductive FileError
  | notFound
  | notADirectory
  | isADirectory
  | notText
  | tooManyLinks
  deriving DecidableEq, Repr

namespace FileTree

def entry? (tree : FileTree) (location : Location) : Option Entry :=
  if location = [] then some .directory else tree.entries.lookup location

def isDirectoryAt (tree : FileTree) (location : Location) : Bool :=
  tree.entry? location = some .directory

/-- Where pieces of a path lead without following a link. -/
inductive Lead
  | arrived (location : Location)
  | link (directory : Location) (target : Path) (rest : List Text)

/-- Goes from a location along pieces, up to the first link that is to be followed. -/
def advance (tree : FileTree) (followLast : Bool) :
    Location → List Text → Except FileError Lead
  | location, [] => pure (.arrived location)
  | location, piece :: rest =>
    if !tree.isDirectoryAt location then throw .notADirectory
    else if piece = [] || piece = ['.'] then advance tree followLast location rest
    else if piece = ['.', '.'] then advance tree followLast location.dropLast rest
    else
      let next := location ++ [String.ofList piece]
      match tree.entry? next with
      | none => throw .notFound
      | some (.link target) =>
        if rest.isEmpty && !followLast then pure (.arrived next)
        else pure (.link location target rest)
      | some _ => advance tree followLast next rest

/-- Goes from a location along pieces, through at most `links` links. An empty target leads
nowhere. -/
def travel (tree : FileTree) (followLast : Bool) :
    (links : Nat) → Location → List Text → Except FileError Location
  | links, location, pieces =>
    match tree.advance followLast location pieces with
    | .error cause => throw cause
    | .ok (.arrived location) => pure location
    | .ok (.link directory target rest) =>
      match links with
      | 0 => throw .tooManyLinks
      | links + 1 =>
        if target = "" then throw .notFound else
        let start := if target.isAbsolute then [] else directory
        travel tree followLast links start (target.pieces ++ rest)

def maxLinks : Nat := 40

def find (tree : FileTree) (followLast : Bool) (path : Path) : Except FileError Location :=
  if path = "" then throw .notFound
  else
    tree.travel followLast maxLinks (if path.isAbsolute then [] else tree.current) path.pieces

def locate (tree : FileTree) (path : Path) : Except FileError Location := tree.find true path

/-- The path itself, which may be a link. -/
def locateLink (tree : FileTree) (path : Path) : Except FileError Location := tree.find false path

def has (tree : FileTree) (path : Path) : Bool := (tree.locate path).toOption.isSome

def isDirectory (tree : FileTree) (path : Path) : Bool :=
  match tree.locate path with
  | .ok location => tree.isDirectoryAt location
  | .error _ => false

def isFile (tree : FileTree) (path : Path) : Bool :=
  match tree.locate path with
  | .ok location => !tree.isDirectoryAt location
  | .error _ => false

def readAt (tree : FileTree) (location : Location) : Except FileError (List UInt8) :=
  match tree.entry? location with
  | some (.file bytes) => pure bytes
  | some .directory => throw .isADirectory
  | some (.link _) => throw .tooManyLinks
  | none => throw .notFound

def readBytes (tree : FileTree) (path : Path) : Except FileError (List UInt8) := do
  tree.readAt (← tree.locate path)

def decode (bytes : List UInt8) : Except FileError Text :=
  match String.fromUTF8? bytes.toByteArray with
  | some text => pure text.toList
  | none => throw .notText

def encode (text : Text) : List UInt8 := text.flatMap String.utf8EncodeChar

def readText (tree : FileTree) (path : Path) : Except FileError Text := do
  decode (← tree.readBytes path)

/-- Gives the file at a location new bytes. Nothing comes or goes. -/
def overwrite (tree : FileTree) (location : Location) (bytes : List UInt8) : FileTree :=
  { tree with
    entries := tree.entries.map fun (other, entry) =>
      if other = location then (other, .file bytes) else (other, entry) }

def namesIn (tree : FileTree) (directory : Location) : List String :=
  let names := tree.entries.filterMap fun (location, _) =>
    match location.getLast? with
    | some name => if location.dropLast = directory then some name else none
    | none => none
  names.mergeSort fun a b => a ≤ b

def insert (tree : FileTree) (location : Location) (entry : Entry) : FileTree :=
  let above := (List.range location.length).map location.take
  let missing := above.filter fun above => tree.entry? above = none
  let others := tree.entries.filter fun (other, _) => other ≠ location
  { tree with entries := others ++ missing.map (·, .directory) ++ [(location, entry)] }

/-- Where a path would lead if its last piece named something: the place for a new file. Links that
lead nowhere are followed, at most `links` of them. -/
def vacancy (tree : FileTree) : (links : Nat) → Path → Except FileError Location
  | links, path =>
    match path.parent?, path.pieces.getLast? with
    | some above, some name =>
      match tree.locate (if above = "" then "." else above) with
      | .error cause => throw cause
      | .ok directory =>
        let location := directory ++ [String.ofList name]
        if !tree.isDirectoryAt directory then throw .notADirectory
        else if !Path.isStep name || name = ['.', '.'] then throw .isADirectory
        else
          match tree.entry? location, links with
          | none, _ => pure location
          | some (.link target), links + 1 => vacancy tree links (directory.path.join target)
          | some _, _ => throw .notFound
    | _, _ => throw .notFound

def writeText (tree : FileTree) (path : Path) (text : Text) : Except FileError FileTree :=
  match tree.locate path with
  | .ok location =>
    if tree.isDirectoryAt location then throw .isADirectory
    else pure (tree.overwrite location (encode text))
  | .error .notFound =>
    (tree.vacancy maxLinks path).map fun location => tree.insert location (.file (encode text))
  | .error cause => throw cause

end FileTree

end Codemod
