import Codemod.Document.Reader

/-!
# Numbers in TOML

Integers are decimal, hexadecimal, octal or binary; floats have a fraction, an
exponent or both. An underscore may stand between two digits. An integer has
to fit 128 bits, with or without a sign, and a float has to be finite as a
double unless it is written `inf` or `nan`.
-/

namespace Codemod.Document.Toml

/-- Digits without the underscores between them; `none` if something else stands there. -/
def ungroup? (isDigit : Char → Bool) (text : Text) : Option Text :=
  match text with
  | [] => none
  | c :: rest => if isDigit c then go c rest else none
where
  go (last : Char) : Text → Option Text
    | [] => some [last]
    | '_' :: c :: rest => if isDigit c then (go c rest).map (last :: ·) else none
    | c :: rest => if isDigit c then (go c rest).map (last :: ·) else none

def isOctalDigit (c : Char) : Bool := '0' ≤ c && c ≤ '7'

def isBinaryDigit (c : Char) : Bool := c == '0' || c == '1'

def isHexDigit (c : Char) : Bool :=
  c.isDigit || ('a' ≤ c && c ≤ 'f') || ('A' ≤ c && c ≤ 'F')

def fitsBits (bits : Nat) (digits : Text) : Bool :=
  let significant := digits.dropWhile (· == '0')
  match significant with
  | [] => true
  | first :: rest =>
    let lead := if first.isDigit then first.toNat - '0'.toNat else 10
    Nat.log2 lead + 1 + bits * rest.length ≤ 128

def unsigned (text : Text) : Text × Bool :=
  match text with
  | '+' :: rest => (rest, false)
  | '-' :: rest => (rest, true)
  | _ => (text, false)

def whole? (text : Text) : Option Text :=
  match ungroup? Char.isDigit text with
  | some ('0' :: _ :: _) => none
  | result => result

def isInteger (text : Text) : Bool :=
  match text with
  | '0' :: 'x' :: digits => (ungroup? isHexDigit digits).any (fitsBits 4)
  | '0' :: 'o' :: digits => (ungroup? isOctalDigit digits).any (fitsBits 3)
  | '0' :: 'b' :: digits => (ungroup? isBinaryDigit digits).any (fitsBits 1)
  | _ =>
    let (digits, negative) := unsigned text
    match whole? digits with
    | none => false
    | some digits => decimal digits ≤ if negative then Nat.pow 2 127 else Nat.pow 2 128 - 1

def power? (text : Text) : Option Int :=
  let (digits, negative) := unsigned text
  (ungroup? Char.isDigit digits).map fun digits =>
    if negative then -(decimal digits : Int) else decimal digits

def isFloat (text : Text) : Bool :=
  let (body, _) := unsigned text
  if body = "inf".toList || body = "nan".toList then true
  else
    let (mantissa, marked) := body.span fun c => c != 'e' && c != 'E'
    let power := match marked with
      | [] => some 0
      | _ :: text => power? text
    let (whole, pointed) := mantissa.span (· != '.')
    let fraction := match pointed with
      | [] => if marked.isEmpty then none else some []
      | _ :: text => ungroup? Char.isDigit text
    match whole? whole, fraction, power with
    | some whole, some fraction, some power =>
      fitsDouble (whole ++ fraction) (power - fraction.length)
    | _, _, _ => false

end Codemod.Document.Toml
