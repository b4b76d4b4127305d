import Codemod.Document

/-!
# Reading documents

The parts that readers of settings files share. A reader takes characters from
the front of a text or refuses it. Readers that repeat take a bound on the
number of rounds, for which the length of the text is enough.
-/

namespace Codemod.Document

abbrev Reader := StateT Text Option

namespace Reader

def peek : Reader (Option Char) := return (← get).head?

def next : Reader Char := do
  match ← get with
  | [] => failure
  | c :: rest =>
    set rest
    return c

def accept (c : Char) : Reader Bool := do
  match ← get with
  | [] => return false
  | d :: rest =>
    if c = d then
      set rest
      return true
    else return false

def acceptWord (word : Text) : Reader Bool := do
  let rest ← get
  if word.isPrefixOf rest then
    set (rest.drop word.length)
    return true
  else return false

def expect (c : Char) : Reader Unit := do
  unless ← accept c do failure

def takeWhile (test : Char → Bool) : Reader Text := do
  let (taken, rest) := (← get).span test
  set rest
  return taken

def skipWhile (test : Char → Bool) : Reader Unit := do
  set ((← get).dropWhile test)

def left : Reader Nat := return (← get).length

def hexNumber : Nat → Nat → Reader Nat
  | 0, value => return value
  | n + 1, value => do
    let c ← next
    let digit ←
      if c.isDigit then pure (c.toNat - '0'.toNat)
      else if 'a' ≤ c && c ≤ 'f' then pure (c.toNat - 'a'.toNat + 10)
      else if 'A' ≤ c && c ≤ 'F' then pure (c.toNat - 'A'.toNat + 10)
      else failure
    hexNumber n (16 * value + digit)

def character (code : Nat) : Reader Char :=
  if code < 0xD800 || (0xDFFF < code && code < 0x110000) then return Char.ofNat code else failure

def whole? {α : Type} (reader : Reader α) (text : Text) : Option α :=
  match reader.run text with
  | some (result, []) => some result
  | _ => none

end Reader

def decimal (digits : Text) : Nat := digits.foldl (fun n d => 10 * n + (d.toNat - '0'.toNat)) 0

/-- Whether `digits · 10 ^ exponent` is less than what would round to an infinite double, namely
half a unit above the largest one. The exponent is only followed near that bound. -/
def fitsDouble (digits : Text) (exponent : Int) : Bool :=
  let significant := digits.dropWhile (· == '0')
  let magnitude := significant.length + exponent
  if significant = [] || magnitude < 300 then true
  else if 320 < magnitude then false
  else
    let value := decimal significant
    let bound := Nat.pow 2 1024 - Nat.pow 2 970
    if 0 ≤ exponent then value * Nat.pow 10 exponent.toNat < bound
    else value < bound * Nat.pow 10 (-exponent).toNat

end Codemod.Document
