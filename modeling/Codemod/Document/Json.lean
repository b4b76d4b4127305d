import Codemod.Document.Reader

/-!
# JSON documents

Strict JSON: no comments, no trailing commas, no byte order mark. Of repeated
keys the last one counts. Nesting is limited, and a number has to be finite as
a double.
-/

namespace Codemod.Document

namespace Json

open Reader

def isSpace (c : Char) : Bool := c == ' ' || c == '\n' || c == '\t' || c == '\r'

def skipSpace : Reader Unit := skipWhile isSpace

def unicode : Reader Char := do
  let code ← hexNumber 4 0
  if 0xD800 ≤ code && code < 0xDC00 then
    unless ← acceptWord ['\\', 'u'] do failure
    let low ← hexNumber 4 0
    if 0xDC00 ≤ low && low < 0xE000 then
      character (0x10000 + 0x400 * (code - 0xD800) + (low - 0xDC00))
    else failure
  else character code

def escaped : Reader Char := do
  match ← next with
  | '"' => return '"'
  | '\\' => return '\\'
  | '/' => return '/'
  | 'b' => return '\x08'
  | 'f' => return '\x0C'
  | 'n' => return '\n'
  | 'r' => return '\r'
  | 't' => return '\t'
  | 'u' => unicode
  | _ => failure

def characters : Nat → Reader Text
  | 0 => failure
  | n + 1 => do
    match ← next with
    | '"' => return []
    | '\\' => return (← escaped) :: (← characters n)
    | c => if c.toNat < 0x20 then failure else return c :: (← characters n)

def string : Reader String := return String.ofList (← characters ((← left) + 1))

def digits : Reader Text := do
  let taken ← takeWhile Char.isDigit
  if taken.isEmpty then failure else return taken

def integer : Reader Text := do
  if ← accept '0' then return ['0'] else digits

def exponent : Reader Int := do
  let marked ← takeWhile fun c => c == 'e' || c == 'E'
  if marked.length = 1 then
    let negative ← accept '-'
    unless negative do let _ ← accept '+'
    let value := decimal (← digits)
    return if negative then -value else value
  else if marked.isEmpty then return 0 else failure

def number : Reader Document := do
  let _ ← accept '-'
  let whole ← integer
  let fraction ← if ← accept '.' then digits else pure []
  let power ← exponent
  if fitsDouble (whole ++ fraction) (power - fraction.length) then return .number else failure

def word (text : Text) (value : Document) : Reader Document := do
  if ← acceptWord text then return value else failure

def scalar : Reader Document := do
  match ← peek with
  | some '"' =>
    expect '"'
    return .text (← string)
  | some 't' => word "true".toList (.bool true)
  | some 'f' => word "false".toList (.bool false)
  | some 'n' => word "null".toList .null
  | _ => number

def itemsUpTo {α : Type} (close : Char) (item : Reader α) : Nat → Reader (List α)
  | 0 => failure
  | n + 1 => do
    let first ← item
    skipSpace
    if ← accept ',' then return first :: (← itemsUpTo close item n)
    expect close
    return [first]

def items {α : Type} (close : Char) (item : Reader α) : Reader (List α) := do
  skipSpace
  if ← accept close then return [] else itemsUpTo close item ((← left) + 1)

def field (value : Reader Document) : Reader (String × Document) := do
  skipSpace
  expect '"'
  let key ← string
  skipSpace
  expect ':'
  return (key, ← value)

/-- A value inside at most `depth` further lists and tables. -/
def value : Nat → Reader Document
  | 0 => do
    skipSpace
    scalar
  | depth + 1 => do
    skipSpace
    if ← accept '[' then return .list (← items ']' (value depth))
    if ← accept '{' then
      let fields ← items '}' (field (value depth))
      return .table (fields.foldl (fun fields (key, value) => put key value fields) [])
    scalar

def maxDepth : Nat := 127

def document : Reader Document := do
  let document ← value maxDepth
  skipSpace
  return document

end Json

def ofJson? (text : Text) : Option Document := Json.document.whole? text

end Codemod.Document
