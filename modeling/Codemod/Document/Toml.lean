import Codemod.Document.Toml.Date
import Codemod.Document.Toml.Number
import Codemod.Document.Toml.Section
import Codemod.Document.Toml.String

/-!
# TOML documents

A document is read line by line: assignments extend the table that the last
header has opened. Tables written as values may go over several lines and end
with a comma. A byte order mark is skipped, and nesting of values is limited.
-/

namespace Codemod.Document

namespace Toml

open Reader

def skipBlanks : Reader Unit := skipWhile isBlank

def skipComment : Reader Unit := do
  if ← accept '#' then skipWhile isPlain

def skipFiller : Nat → Reader Unit
  | 0 => return ()
  | n + 1 => do
    skipBlanks
    skipComment
    if ← acceptLineBreak then skipFiller n

def lineEnd : Reader Unit := do
  skipBlanks
  skipComment
  unless (← get).isEmpty do
    unless ← acceptLineBreak do failure

def isBareKeyChar (c : Char) : Bool := c.isAlphanum || c == '_' || c == '-'

def simpleKey : Reader String := do
  match ← peek with
  | some c =>
    if isQuote c then lineString
    else
      let name ← takeWhile isBareKeyChar
      if name.isEmpty then failure else return String.ofList name
  | none => failure

def key : Nat → Reader (List String × String)
  | 0 => failure
  | n + 1 => do
    let name ← simpleKey
    skipBlanks
    if ← accept '.' then
      skipBlanks
      let (path, last) ← key n
      return (name :: path, last)
    else return ([], name)

def isTokenEnd (c : Char) : Bool :=
  isBlank c || c == '\n' || c == '\r' || c == ',' || c == ']' || c == '}' || c == '#'

def token : Reader Text := takeWhile (!isTokenEnd ·)

/-- A number, a date or a truth value. The blank between a date and a time is part of it. -/
def bare : Reader Document := do
  let first ← token
  let text ←
    match ← get with
    | ' ' :: c :: _ =>
      if (fullDate.whole? first).isSome && c.isDigit then
        expect ' '
        pure (first ++ ' ' :: (← token))
      else pure first
    | _ => pure first
  if text = "true".toList then return .bool true
  else if text = "false".toList then return .bool false
  else if isInteger text || isFloat text then return .number
  else if isDate text then return .date
  else failure

def scalar : Reader Document := do
  match ← peek with
  | some c => if isQuote c then return .text (← string) else bare
  | none => failure

def itemsUpTo {α : Type} (close : Char) (item : Reader α) : Nat → Reader (List α)
  | 0 => failure
  | n + 1 => do
    skipFiller (n + 1)
    if ← accept close then return []
    let first ← item
    skipFiller (n + 1)
    if ← accept ',' then return first :: (← itemsUpTo close item n)
    expect close
    return [first]

def assignment (value : Reader Document) : Reader ((List String × String) × Document) := do
  let name ← key ((← left) + 1)
  expect '='
  skipBlanks
  return (name, ← value)

def inlineTable? (assignments : List ((List String × String) × Document)) : Option Document := do
  let (_, fields) ← assignments.foldlM (fun (origin, fields) ((path, key), value) =>
    assign path key value origin fields) (Origin.header, ([] : Fields))
  return .table (toFields fields)

def value : Nat → Reader Document
  | 0 => scalar
  | depth + 1 => do
    let bound := (← left) + 1
    if ← accept '[' then return .list (← itemsUpTo ']' (value depth) bound)
    if ← accept '{' then
      let assignments ← itemsUpTo '}' (assignment (value depth)) bound
      match inlineTable? assignments with
      | some inline => return inline
      | none => failure
    scalar

def maxDepth : Nat := 80

structure Draft where
  fields : Fields := []
  current : List String := []

def Draft.change (draft : Draft) (path : List String)
    (change : Origin → Fields → Option (Origin × Fields)) : Option Draft :=
  (atPath false change path .header draft.fields).map fun (_, fields) => { draft with fields }

def header (draft : Draft) : Reader Draft := do
  let twice ← acceptWord ['[', '[']
  unless twice do expect '['
  skipBlanks
  let (path, key) ← key ((← left) + 1)
  expect ']'
  if twice then expect ']'
  match draft.change path (if twice then openItem key else openTable key) with
  | some draft => return { draft with current := path ++ [key] }
  | none => failure

def line (draft : Draft) : Reader Draft := do
  skipBlanks
  match ← peek with
  | none => return draft
  | some '[' => header draft
  | some c =>
    if c == '#' || c == '\n' || c == '\r' then return draft
    let ((path, key), value) ← assignment (value maxDepth)
    match draft.change draft.current (assign path key value) with
    | some draft => return draft
    | none => failure

def linesUpTo : Nat → Draft → Reader Draft
  | 0, _ => failure
  | n + 1, draft => do
    let draft ← line draft
    lineEnd
    if (← get).isEmpty then return draft else linesUpTo n draft

def document : Reader Document := do
  let _ ← accept '\uFEFF'
  let draft ← linesUpTo ((← left) + 1) {}
  return .table (toFields draft.fields)

end Toml

def ofToml? (text : Text) : Option Document := Toml.document.whole? text

end Codemod.Document
