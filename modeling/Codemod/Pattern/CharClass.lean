import Codemod.Text.Digit
import Codemod.Text.WhiteSpace
import Codemod.Text.Word

/-!
# Character classes

What one position of a pattern may match.
-/

namespace Codemod

inductive CharClass
  | single (c : Char)
  | range (low high : Char)
  | word
  | digit
  | space
  | not (cls : CharClass)
  | either (left right : CharClass)
  | never
  deriving DecidableEq, Repr

namespace CharClass

def has : CharClass → Char → Bool
  | single d, c => c == d
  | range low high, c => low.toNat ≤ c.toNat && c.toNat ≤ high.toNat
  | word, c => Text.isWord c
  | digit, c => Text.isDigit c
  | space, c => Text.isWhiteSpace c
  | not cls, c => !cls.has c
  | either left right, c => left.has c || right.has c
  | never, _ => false

def dot : CharClass := not (single '\n')

def anyOf (classes : List CharClass) : CharClass := classes.foldr either never

end CharClass

end Codemod
