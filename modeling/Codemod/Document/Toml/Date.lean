import Codemod.Document.Reader

/-!
# Dates and times in TOML

A date, a time, or both with a `T` or a blank between them and an optional
offset. Seconds may be left out, fractions of a second may follow them.
-/

namespace Codemod.Document.Toml

open Reader

def fixed : Nat → Reader Nat
  | 0 => return 0
  | n + 1 => do
    let c ← next
    if c.isDigit then return (c.toNat - '0'.toNat) * Nat.pow 10 n + (← fixed n) else failure

def isLeapYear (year : Nat) : Bool := year % 4 = 0 && (year % 100 ≠ 0 || year % 400 = 0)

def daysIn (year month : Nat) : Nat :=
  if month = 2 then if isLeapYear year then 29 else 28
  else if month ∈ [4, 6, 9, 11] then 30
  else 31

def fullDate : Reader Unit := do
  let year ← fixed 4
  expect '-'
  let month ← fixed 2
  expect '-'
  let day ← fixed 2
  unless 1 ≤ month && month ≤ 12 && 1 ≤ day && day ≤ daysIn year month do failure

/-- The sixtieth second is a leap second. -/
def clockTime : Reader Unit := do
  let hour ← fixed 2
  expect ':'
  let minute ← fixed 2
  unless hour ≤ 23 && minute ≤ 59 do failure
  if ← accept ':' then
    let second ← fixed 2
    unless second ≤ 60 do failure
    if ← accept '.' then
      if (← takeWhile Char.isDigit).isEmpty then failure

def isOneOf (options : List Char) (c : Char) : Bool := options.contains c

def offset : Reader Unit := do
  match ← peek with
  | none => return ()
  | some c =>
    let _ ← next
    if isOneOf ['Z', 'z'] c then return ()
    else if isOneOf ['+', '-'] c then
      let hour ← fixed 2
      expect ':'
      let minute ← fixed 2
      unless hour ≤ 23 && minute ≤ 59 do failure
    else failure

def dateTime : Reader Unit := do
  fullDate
  match ← peek with
  | none => return ()
  | some c =>
    let _ ← next
    unless isOneOf ['T', 't', ' '] c do failure
    clockTime
    offset

def isDate (text : Text) : Bool :=
  (dateTime.whole? text).isSome || (clockTime.whole? text).isSome

end Codemod.Document.Toml
