import Codemod.Document.Reader

/-!
# Strings in TOML

A string is basic, with escapes, or literal, and either on one line or between
three quotes on any number of lines. Of the control characters only the
tabulator stands in a string, and line breaks between three quotes.
-/

namespace Codemod.Document.Toml

open Reader

def isBlank (c : Char) : Bool := c == ' ' || c == '\t'

def isPlain (c : Char) : Bool := c == '\t' || (0x20 ≤ c.toNat && c.toNat ≠ 0x7F)

/-- Takes a line break if one comes next: a line feed, perhaps after a carriage return. -/
def acceptLineBreak : Reader Bool := do
  if ← accept '\n' then return true else acceptWord ['\r', '\n']

def escaped : Reader Char := do
  match ← next with
  | 'b' => return '\x08'
  | 't' => return '\t'
  | 'n' => return '\n'
  | 'f' => return '\x0C'
  | 'r' => return '\r'
  | 'e' => return '\x1b'
  | '"' => return '"'
  | '\\' => return '\\'
  | 'x' => character (← hexNumber 2 0)
  | 'u' => character (← hexNumber 4 0)
  | 'U' => character (← hexNumber 8 0)
  | _ => failure

def basicLine : Nat → Reader Text
  | 0 => failure
  | n + 1 => do
    match ← next with
    | '"' => return []
    | '\\' => return (← escaped) :: (← basicLine n)
    | c => if isPlain c then return c :: (← basicLine n) else failure

def literalLine : Nat → Reader Text
  | 0 => failure
  | n + 1 => do
    match ← next with
    | '\'' => return []
    | c => if isPlain c then return c :: (← literalLine n) else failure

def skipBreaks : Nat → Reader Unit
  | 0 => return ()
  | n + 1 => do
    skipWhile isBlank
    if ← acceptLineBreak then skipBreaks n

def endsLine : Reader Bool := do
  match (← get).dropWhile isBlank with
  | '\n' :: _ => return true
  | '\r' :: '\n' :: _ => return true
  | _ => return false

/-- The rest of a string between three quotes. Up to two quotes more stand before the closing
three. In a basic string, a backslash at the end of a line joins it to the next text. -/
def lines (quote : Char) (basic : Bool) : Nat → Reader Text
  | 0 => failure
  | n + 1 => do
    let quotes ← takeWhile (· == quote)
    if 5 < quotes.length then failure
    if 3 ≤ quotes.length then return quotes.drop 3
    let c ← next
    if basic && c == '\\' then
      if ← endsLine then
        skipBreaks (n + 1)
        return quotes ++ (← lines quote basic n)
      else
        let c ← escaped
        return quotes ++ c :: (← lines quote basic n)
    else if c == '\r' then
      expect '\n'
      return quotes ++ '\r' :: '\n' :: (← lines quote basic n)
    else if c == '\n' || isPlain c then return quotes ++ c :: (← lines quote basic n)
    else failure

def lineString : Reader String := do
  let bound := (← left) + 1
  match ← next with
  | '"' => return String.ofList (← basicLine bound)
  | '\'' => return String.ofList (← literalLine bound)
  | _ => failure

def isQuote (c : Char) : Bool := c == '"' || c == '\''

def string : Reader String := do
  let bound := (← left) + 1
  let quote ← match ← peek with
    | some c => if isQuote c then pure c else failure
    | none => failure
  if ← acceptWord [quote, quote, quote] then
    let _ ← acceptLineBreak
    return String.ofList (← lines quote (quote == '"') bound)
  else lineString

end Codemod.Document.Toml
