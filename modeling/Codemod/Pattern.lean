import Codemod.Pattern.CharClass
import Codemod.Search

/-!
# Patterns

A pattern describes pieces of text, with ordered choice: of two ways to match,
the one that prefers earlier alternatives and, for a greedy repetition, more
rounds wins.

A round of a repetition may match nothing. So that such rounds come to an end,
a branch point is passed at most once between two consumed characters. Each
way through a pattern keeps the branch points it has passed since its last
character; coming back to one of them is no match. An unbounded repetition has
one branch point, passed before each round that may be left out. If the first
round is such a round and may match nothing, it has a branch point of its own.
-/

namespace Codemod

inductive Pattern
  | empty
  | one (cls : CharClass)
  | textStart
  | textEnd
  | seq (first second : Pattern)
  /-- The first alternative is preferred. -/
  | alt (first second : Pattern)
  /-- Remembers what the body matched last, under a number from one on. -/
  | group (index : Nat) (body : Pattern)
  | rep (body : Pattern) (low : Nat) (high : Option Nat) (greedy : Bool)
  deriving DecidableEq, Repr

/-- A place in a pattern: the turns taken from its top, the last one first. -/
abbrev Place := List Nat

def Place.branch (place : Place) (i : Nat) : Place := i :: 0 :: place

def Place.part (place : Place) (i : Nat) : Place := i :: 1 :: place

structure Cursor where
  rest : Text
  /-- Bytes of the whole text before `rest`. -/
  offset : Nat
  groups : List (Nat × Text) := []
  /-- Branch points passed since the last consumed character. -/
  passed : List Place := []
  deriving DecidableEq, Repr

namespace Cursor

def consume? (cursor : Cursor) (cls : CharClass) : Option Cursor :=
  match cursor.rest with
  | [] => none
  | c :: rest =>
    if cls.has c then
      some { cursor with rest, offset := cursor.offset + c.utf8Size, passed := [] }
    else none

def pass? (cursor : Cursor) (branch : Place) : Option Cursor :=
  if branch ∈ cursor.passed then none
  else some { cursor with passed := branch :: cursor.passed }

def textUpTo (start stop : Cursor) : Text :=
  start.rest.take (start.rest.length - stop.rest.length)

def remember (cursor : Cursor) (index : Nat) (text : Text) : Cursor :=
  { cursor with groups := (index, text) :: cursor.groups }

end Cursor

namespace Pattern

/-- Whether every match takes at least one character. -/
def consumes : Pattern → Bool
  | empty => false
  | one _ => true
  | textStart => false
  | textEnd => false
  | seq first second => first.consumes || second.consumes
  | alt first second => first.consumes && second.consumes
  | group _ body => body.consumes
  | rep body low _ _ => 0 < low && body.consumes

abbrev Continuation := Cursor → Option Cursor

abbrev Step := Cursor → Continuation → Option Cursor

def prefer (greedy : Bool) (more stop : Unit → Option Cursor) : Option Cursor :=
  if greedy then more () <|> stop () else stop () <|> more ()

def rounds (round : Nat → Step) : Nat → Nat → Step
  | 0, _, cursor, next => next cursor
  | n + 1, i, cursor, next => round i cursor fun cursor => rounds round n (i + 1) cursor next

def roundsUpTo (round : Nat → Step) (place : Place) (greedy : Bool) : Nat → Nat → Step
  | 0, _, cursor, next => next cursor
  | n + 1, i, cursor, next =>
    match cursor.pass? (place.branch (i + 2)) with
    | none => none
    | some cursor =>
      prefer greedy
        (fun _ => round i cursor fun cursor => roundsUpTo round place greedy n (i + 1) cursor next)
        (fun _ => next cursor)

/-- Another round of an unbounded repetition, or on. The branch point is passed
once for each position, so as many steps as there are characters left and one more suffice. -/
def moreRounds (round : Step) (place : Place) (greedy : Bool) (next : Continuation) :
    Nat → Continuation
  | 0, _ => none
  | n + 1, cursor =>
    match cursor.pass? (place.branch 1) with
    | none => none
    | some cursor =>
      prefer greedy
        (fun _ => round cursor (moreRounds round place greedy next n))
        (fun _ => next cursor)

def someRounds (round : Step) (place : Place) (greedy : Bool) : Step := fun cursor next =>
  round cursor (moreRounds round place greedy next (cursor.rest.length + 1))

def run : Pattern → Place → Step
  | empty, _, cursor, next => next cursor
  | one cls, _, cursor, next =>
    match cursor.consume? cls with
    | none => none
    | some cursor => next cursor
  | textStart, _, cursor, next => if cursor.offset = 0 then next cursor else none
  | textEnd, _, cursor, next => if cursor.rest = [] then next cursor else none
  | seq first second, place, cursor, next =>
    first.run (place.part 0) cursor fun cursor => second.run (place.part 1) cursor next
  | alt first second, place, cursor, next =>
    match cursor.pass? (place.branch 0) with
    | none => none
    | some cursor =>
      first.run (place.part 0) cursor next <|> second.run (place.part 1) cursor next
  | group index body, place, cursor, next =>
    body.run (place.part 0) cursor fun stop =>
      next (stop.remember index (cursor.textUpTo stop))
  | rep body low none greedy, place, cursor, next =>
    match low with
    | 0 =>
      if body.consumes then
        moreRounds (fun c k => body.run (place.part 0) c k) place greedy next
          (cursor.rest.length + 1) cursor
      else
        match cursor.pass? (place.branch 0) with
        | none => none
        | some cursor =>
          prefer greedy
            (fun _ => someRounds (fun c k => body.run (place.part 0) c k) place greedy cursor next)
            (fun _ => next cursor)
    | n + 1 =>
      rounds (fun i c k => body.run (place.part i) c k) n 0 cursor fun cursor =>
        someRounds (fun c k => body.run (place.part n) c k) place greedy cursor next
  | rep body low (some high) greedy, place, cursor, next =>
    rounds (fun i c k => body.run (place.part i) c k) low 0 cursor fun cursor =>
      roundsUpTo (fun i c k => body.run (place.part i) c k) place greedy (high - low) low cursor next

def matchAt (pattern : Pattern) (offset : Nat) (rest : Text) : Option Match :=
  let start : Cursor := { rest, offset }
  (pattern.run [] start some).map fun stop =>
    { start := offset, text := start.textUpTo stop, groups := stop.groups }

def literal (text : Text) : Pattern := text.foldr (fun c rest => seq (one (.single c)) rest) empty

def inOrder (patterns : List Pattern) : Pattern := patterns.foldr seq empty

def anyNumber (cls : CharClass) : Pattern := rep (one cls) 0 none true

def atLeastOne (cls : CharClass) : Pattern := rep (one cls) 1 none true

def optional (pattern : Pattern) : Pattern := rep pattern 0 (some 1) true

end Pattern

def Finder.ofPattern (pattern : Pattern) : Finder := pattern.matchAt

end Codemod
