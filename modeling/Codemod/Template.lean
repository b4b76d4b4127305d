import Codemod.Search

/-!
# Replacement templates

A template is literal text mixed with references to the groups of a match. In
its written form `$n` or `$name` refers to a group and takes the longest run of
letters, digits and underscores; `${...}` takes everything up to the brace;
`$$` is a dollar sign. A dollar sign that starts none of these stays as it is.
A reference to a group that does not exist stands for nothing.
-/

namespace Codemod

inductive Template.Part
  | text (text : Text)
  | group (index : Nat)
  deriving DecidableEq, Repr

abbrev Template := List Template.Part

namespace Template

def expand (template : Template) (m : Match) : Text :=
  template.flatMap fun
    | .text text => text
    | .group index => m.group index

def isNameChar (c : Char) : Bool := c.isAlphanum || c == '_'

def number? (name : Text) : Option Nat :=
  let digits := match name with
    | '+' :: rest => rest
    | _ => name
  if digits ≠ [] && digits.all Char.isDigit then
    some (digits.foldl (fun n d => 10 * n + (d.toNat - '0'.toNat)) 0)
  else none

def reference (names : List (Text × Nat)) (name : Text) : Part :=
  match number? name <|> names.lookup name with
  | some index => .group index
  | none => .text []

def readFrom (names : List (Text × Nat)) : Nat → Text → Template
  | 0, text => [.text text]
  | _ + 1, [] => []
  | n + 1, '$' :: '$' :: rest => .text ['$'] :: readFrom names n rest
  | n + 1, '$' :: '{' :: rest =>
    match rest.span (· != '}') with
    | (_, []) => .text ['$'] :: readFrom names n ('{' :: rest)
    | (name, _ :: after) => reference names name :: readFrom names n after
  | n + 1, '$' :: rest =>
    match rest.span isNameChar with
    | ([], _) => .text ['$'] :: readFrom names n rest
    | (name, after) => reference names name :: readFrom names n after
  | n + 1, c :: rest => .text [c] :: readFrom names n rest

def read (names : List (Text × Nat)) (text : Text) : Template := readFrom names text.length text

end Template

end Codemod
