import Codemod.Text.Offset

/-!
# Edits

An edit replaces a byte range of a text. A batch of edits is checked against
the text it was made for and then spliced in from the end of the text
backwards, so that the offsets of the edits still to come stay valid.

Ranges may be written backwards. The check does not look for that; placing
such an edit fails.
-/

namespace Codemod

structure Edit where
  start : Nat
  stop : Nat
  replacement : Text
  /-- What made the edit, for logs. It takes part in equality. -/
  description : Option String := none
  deriving DecidableEq, Repr

namespace Edit

/-- Strict on both sides, so an empty range overlaps only what surrounds it. -/
def overlaps (a b : Edit) : Bool := a.start < b.stop && b.start < a.stop

theorem overlaps_comm (a b : Edit) : a.overlaps b = b.overlaps a := by
  simp [overlaps, Bool.and_comm]

def isNoop (source : Text) (edit : Edit) : Bool :=
  slice? source edit.start edit.stop == some edit.replacement

def splice? (text : Text) (edit : Edit) : Option Text := do
  guard (edit.start ≤ edit.stop)
  let (before, rest) ← cut? text edit.start
  let (_, after) ← cut? rest (edit.stop - edit.start)
  return before ++ edit.replacement ++ after

end Edit

/-- Why a batch cannot be applied. Indices count the edits of the batch from zero. -/
inductive EditError
  | overlapping (first second : Nat)
  | outOfBounds (index stop size : Nat)
  | splitsCharacter (index : Nat)
  /-- The range is reversed, or no longer falls on characters of the text as edited so far. -/
  | misplaced (edit : Edit)
  deriving DecidableEq, Repr

def EditError.message : EditError → String
  | overlapping first second => s!"Overlapping edits at indices {first} and {second}"
  | outOfBounds index stop size =>
    s!"Edit {index} out of bounds: end_byte {stop} > source length {size}"
  | splitsCharacter index => s!"Edit {index} does not start or end on a character boundary"
  | misplaced edit => s!"Edit of range {edit.start}..{edit.stop} has no place in the text"

namespace Edit

def fault? (source : Text) (index : Nat) (edit : Edit) : Option EditError :=
  if byteSize source < edit.stop then
    some (.outOfBounds index edit.stop (byteSize source))
  else if isBoundary source edit.start && isBoundary source edit.stop then
    none
  else
    some (.splitsCharacter index)

def firstFault? (source : Text) : Nat → List Edit → Option EditError
  | _, [] => none
  | index, edit :: rest => edit.fault? source index <|> firstFault? source (index + 1) rest

def firstOverlapWith? (edit : Edit) : Nat → List Edit → Option Nat
  | _, [] => none
  | index, other :: rest =>
    if edit.overlaps other then some index else firstOverlapWith? edit (index + 1) rest

def firstOverlap? : Nat → List Edit → Option (Nat × Nat)
  | _, [] => none
  | index, edit :: rest =>
    match edit.firstOverlapWith? (index + 1) rest with
    | some other => some (index, other)
    | none => firstOverlap? (index + 1) rest

/-- Faults of single edits are reported before overlaps. -/
def validate (source : Text) (edits : List Edit) : Except EditError Unit :=
  match firstFault? source 0 edits with
  | some fault => throw fault
  | none =>
    match firstOverlap? 0 edits with
    | some (first, second) => throw (.overlapping first second)
    | none => pure ()

/-- Latest start first; edits with one start keep their order. -/
def fromTheEnd (edits : List Edit) : List Edit :=
  edits.mergeSort fun a b => b.start ≤ a.start

def spliceAll : Text → List Edit → Except EditError Text
  | text, [] => pure text
  | text, edit :: rest =>
    match edit.splice? text with
    | some next => spliceAll next rest
    | none => throw (.misplaced edit)

def applyAll (source : Text) (edits : List Edit) : Except EditError Text := do
  validate source edits
  spliceAll source (fromTheEnd edits)

end Edit

structure EditBatch where
  source : Text
  edits : List Edit := []

namespace EditBatch

def add (batch : EditBatch) (edit : Edit) : EditBatch :=
  { batch with edits := batch.edits ++ [edit] }

def addAll (batch : EditBatch) (edits : List Edit) : EditBatch :=
  { batch with edits := batch.edits ++ edits }

def validate (batch : EditBatch) : Except EditError Unit := Edit.validate batch.source batch.edits

def apply (batch : EditBatch) : Except EditError Text := Edit.applyAll batch.source batch.edits

end EditBatch

end Codemod
