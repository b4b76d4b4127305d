import Codemod.Text.CharRange

/-!
# White space

White space: the characters with the White_Space property, among them the no-break space
and the line and paragraph separators. A zero-width space is none of them.
-/

namespace Codemod.Text

def whiteSpaceRanges : List CharRange :=
  [(0x9, 0xD), (0x20, 0x20), (0x85, 0x85), (0xA0, 0xA0), (0x1680, 0x1680), (0x2000, 0x200A),
   (0x2028, 0x2029), (0x202F, 0x202F), (0x205F, 0x205F), (0x3000, 0x3000)]

def isWhiteSpace (c : Char) : Bool := inRanges c.toNat whiteSpaceRanges

end Codemod.Text
