import Codemod.Document

/-!
# Sections of a TOML document

A document is a tree of tables that its lines extend. A table may be opened by
a header once; before that it may be there because a header names something
below it. A table made by a dotted key is extended by dotted keys only, and
not by the header of its own. A table written as a value is closed.
-/

namespace Codemod.Document.Toml

inductive Origin
  /-- A header names something below it. -/
  | implied
  /-- It is the document itself or has a header of its own. -/
  | header
  /-- A dotted key goes through it. -/
  | dotted
  deriving DecidableEq, Repr

inductive Node
  | value (value : Document)
  | table (origin : Origin) (fields : List (String × Node))
  /-- A list with one header for each of its tables, the latest first. -/
  | tables (items : List (List (String × Node)))
  deriving Repr

abbrev Fields := List (String × Node)

mutual

def Node.toDocument : Node → Document
  | .value value => value
  | .table _ fields => .table (toFields fields)
  | .tables items => .list (toTables items [])

def toFields : List (String × Node) → List (String × Document)
  | [] => []
  | (key, node) :: rest => (key, node.toDocument) :: toFields rest

def toTables : List (List (String × Node)) → List Document → List Document
  | [], later => later
  | fields :: rest, later => toTables rest (.table (toFields fields) :: later)

end

/-- Changes the table at the end of a path. Tables on the way are made if they are missing; a
table that has a header is not passed by a dotted key. -/
def atPath (dotted : Bool) (change : Origin → Fields → Option (Origin × Fields)) :
    List String → Origin → Fields → Option (Origin × Fields)
  | [], origin, fields => change origin fields
  | key :: path, origin, fields => do
    match fields.lookup key with
    | none =>
      let (below, inner) ← atPath dotted change path (if dotted then .dotted else .implied) []
      return (origin, put key (.table below inner) fields)
    | some (.table below inner) =>
      if dotted && below = .header then failure
      let (below, inner) ← atPath dotted change path below inner
      return (origin, put key (.table below inner) fields)
    | some (.tables (latest :: earlier)) =>
      let (_, inner) ← atPath dotted change path .header latest
      return (origin, put key (.tables (inner :: earlier)) fields)
    | some (.tables []) => failure
    | some (.value _) => failure

def addField (dotted : Bool) (key : String) (value : Document) (origin : Origin)
    (fields : Fields) : Option (Origin × Fields) :=
  if (origin = .dotted) ≠ (dotted = true) then none
  else if (fields.lookup key).isSome then none
  else some (origin, put key (.value value) fields)

def assign (path : List String) (key : String) (value : Document) :
    Origin → Fields → Option (Origin × Fields) :=
  atPath true (addField (!path.isEmpty) key value) path

def openTable (key : String) (origin : Origin) (fields : Fields) : Option (Origin × Fields) :=
  match fields.lookup key with
  | none => some (origin, put key (.table .header []) fields)
  | some (.table .implied inner) => some (origin, put key (.table .header inner) fields)
  | some _ => none

def openItem (key : String) (origin : Origin) (fields : Fields) : Option (Origin × Fields) :=
  match fields.lookup key with
  | none => some (origin, put key (.tables [[]]) fields)
  | some (.tables items) => some (origin, put key (.tables ([] :: items)) fields)
  | some _ => none

end Codemod.Document.Toml
