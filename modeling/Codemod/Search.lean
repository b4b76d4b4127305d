import Codemod.Text.Offset

/-!
# Searching a text

A search gives the pieces of a text that a pattern stands for. `PatternLanguage`
leaves open what patterns are and how they are searched for; `Lawful` is all
that is relied on: the pieces follow one another from left to right.

`Finder.pieces` is a search that tests one position after the other and goes
on behind what it has found. An empty piece directly after another piece is
passed over.
-/

namespace Codemod

structure Match where
  start : Nat
  text : Text
  groups : List (Nat × Text) := []
  deriving DecidableEq, Repr

namespace Match

def stop (m : Match) : Nat := m.start + byteSize m.text

/-- What a group matched last. Group zero is the whole piece; a group that took no part is empty. -/
def group (m : Match) (index : Nat) : Text :=
  if index = 0 then m.text else (m.groups.lookup index).getD []

/-- The piece is what the text has at its start, from character to character. -/
def StandsIn (text : Text) (m : Match) : Prop :=
  ∃ before after, text = before ++ m.text ++ after ∧ m.start = byteSize before

/-- Pieces of a text as a search gives them. -/
structure Successive (text : Text) (pieces : List Match) : Prop where
  /-- A search moves on, also behind an empty piece. -/
  ascending : pieces.Pairwise fun a b => a.start < b.start
  apart : pieces.Pairwise fun a b => a.stop ≤ b.start
  onCharacters : ∀ piece ∈ pieces, piece.StandsIn text
  /-- No empty piece stands at the end of one before it. -/
  detached : pieces.Pairwise fun a b => b.text = [] → a.stop ≠ b.start

end Match

structure NamedPattern (ρ : Type) where
  pattern : ρ
  names : List (Text × Nat) := []

/-- How patterns are read from a text, and what they find in one. -/
class PatternLanguage (ρ : Type) where
  read? : Text → Option (NamedPattern ρ)
  pieces : ρ → Text → List Match

/-- Whatever the pattern, its pieces are successive. -/
class PatternLanguage.Lawful (ρ : Type) [PatternLanguage ρ] : Prop where
  successive (pattern : ρ) (text : Text) : Match.Successive text (pieces pattern text)

/-- A test for one kind of piece: given the offset and the text from there on, the piece that
starts there. -/
abbrev Finder := Nat → Text → Option Match

namespace Finder

def ofText (needle : Text) : Finder := fun offset rest =>
  if needle ≠ [] && needle.isPrefixOf rest then some { start := offset, text := needle } else none

/-- Pieces from a position on. `inside` counts the characters that still belong to the last piece;
`touching` says that the last piece ends here. -/
def piecesFrom (find : Finder) : Nat → Nat → Bool → Text → List Match
  | offset, _, touching, [] =>
    match find offset [] with
    | none => []
    | some piece => if touching then [] else [piece]
  | offset, inside + 1, _, c :: rest => piecesFrom find (offset + c.utf8Size) inside true rest
  | offset, 0, touching, c :: rest =>
    match find offset (c :: rest) with
    | none => piecesFrom find (offset + c.utf8Size) 0 false rest
    | some piece =>
      match piece.text with
      | [] =>
        if touching then piecesFrom find (offset + c.utf8Size) 0 false rest
        else piece :: piecesFrom find (offset + c.utf8Size) 0 false rest
      | _ :: more => piece :: piecesFrom find (offset + c.utf8Size) more.length true rest

def pieces (find : Finder) (text : Text) : List Match := find.piecesFrom 0 0 false text

end Finder

end Codemod
