import Codemod.Pattern

/-!
# Globs

A glob describes paths by their bytes. `?` is any byte but a slash and `*` any
number of them; `**` as a whole piece stands for any number of pieces; a class
in brackets is one byte; `{a,b}` is one of several globs, of which empty ones
do not count; a backslash takes away the meaning of the next character. A
bracket that is never closed stands for itself.
-/

namespace Codemod

inductive Glob.Token
  | literal (c : Char)
  | anyByte
  | anyBytes
  | anyOf (negated : Bool) (ranges : List (Char × Char))
  /-- Any number of pieces at the start. -/
  | piecesFirst
  /-- A slash with any number of pieces and another slash, or one slash. -/
  | piecesBetween
  /-- A slash and all below it. -/
  | piecesLast
  | oneOf (branches : List (List Token))
  deriving Repr

abbrev Glob := List Glob.Token

inductive GlobError
  | reversedRange (low high : Char)
  | unopenedBraces
  | unclosedBraces
  | danglingEscape
  deriving DecidableEq, Repr

def GlobError.message : GlobError → String
  | reversedRange low high =>
    "invalid range; '" ++ low.toString ++ "' > '" ++ high.toString ++ "'"
  | unopenedBraces => "unopened alternate group; missing '\x7b' (maybe escape '\x7d' with '[\x7d]'?)"
  | unclosedBraces => "unclosed alternate group; missing '\x7d' (maybe escape '\x7b' with '[\x7b]'?)"
  | danglingEscape => "dangling '\\'"

namespace Glob

def endRange (ranges : List (Char × Char)) (high : Char) :
    Except GlobError (List (Char × Char)) :=
  match ranges with
  | [] => pure [(high, high)]
  | (low, _) :: rest =>
    if high < low then throw (.reversedRange low high) else pure ((low, high) :: rest)

/-- The ranges of a class after its first character, the latest first, and what follows the
class. `open?` tells whether a dash has just begun a range. There is no result if the class does
not end. -/
def classRest (ranges : List (Char × Char)) (open? : Bool) :
    Text → Except GlobError (Option (List (Char × Char) × Text))
  | [] => pure none
  | ']' :: rest => pure (some (if open? then ('-', '-') :: ranges else ranges, rest))
  | c :: rest =>
    if open? then
      match endRange ranges c with
      | .error cause => throw cause
      | .ok ranges => classRest ranges false rest
    else if c = '-' then classRest ranges true rest
    else classRest ((c, c) :: ranges) false rest

def readClass (text : Text) : Except GlobError (Option (Token × Text)) := do
  let (negated, text) := match text with
    | '!' :: rest => (true, rest)
    | '^' :: rest => (true, rest)
    | _ => (false, text)
  match text with
  | [] => return none
  | c :: rest =>
    match ← classRest [(c, c)] false rest with
    | none => return none
    | some (ranges, rest) => return some (.anyOf negated ranges.reverse, rest)

structure Draft where
  tokens : List Token := []
  previous : Option Char := none
  /-- For each open brace the tokens before it and its finished branches, the latest first. -/
  outer : List (List Token × List (List Token)) := []
  unclosed : Bool := false

def Draft.push (draft : Draft) (token : Token) (last : Char) : Draft :=
  { draft with tokens := token :: draft.tokens, previous := some last }

def Draft.close (draft : Draft) : Except GlobError Draft :=
  match draft.outer with
  | [] => throw .unopenedBraces
  | (before, finished) :: outer =>
    let branches := ((draft.tokens :: finished).map List.reverse).reverse
    pure { draft with tokens := .oneOf branches :: before, previous := some '}', outer }

def Draft.comma (draft : Draft) : Draft :=
  match draft.outer with
  | [] => draft.push (.literal ',') ','
  | (before, finished) :: outer =>
    { draft with
      tokens := [], previous := some ',', outer := (before, draft.tokens :: finished) :: outer }

def Draft.twoStars (draft : Draft) : Draft := (draft.push .anyBytes '*').push .anyBytes '*'

/-- Puts a token for any number of pieces in the place of the slash before it; next to another
such token it adds nothing. -/
def Draft.pieces (draft : Draft) (token : Token) (last : Char) : Draft :=
  match draft.tokens with
  | .piecesFirst :: _ => { draft with previous := some last }
  | .piecesLast :: _ => { draft with previous := some last }
  | _ :: tokens => { draft with tokens := token :: tokens, previous := some last }
  | [] => draft.push token last

def Draft.stars (draft : Draft) (rest : Text) : Draft × Text :=
  let inBraces := !draft.outer.isEmpty
  if draft.tokens.isEmpty then
    match rest with
    | [] => (draft.push .piecesFirst '*', [])
    | '/' :: rest => (draft.push .piecesFirst '/', rest)
    | _ => (draft.twoStars, rest)
  else if draft.previous ≠ some '/' &&
      !(inBraces && (draft.previous = some ',' || draft.previous = some '{')) then
    (draft.twoStars, rest)
  else
    match rest with
    | [] => (draft.pieces .piecesLast '*', [])
    | '/' :: rest => (draft.pieces .piecesBetween '/', rest)
    | c :: _ =>
      if inBraces && (c = ',' || c = '}') then (draft.pieces .piecesLast '*', rest)
      else (draft.twoStars, rest)

def readFrom : Nat → Draft → Text → Except GlobError Draft
  | 0, draft, _ => pure draft
  | _ + 1, draft, [] => pure draft
  | n + 1, draft, '?' :: rest => readFrom n (draft.push .anyByte '?') rest
  | n + 1, draft, '*' :: '*' :: rest =>
    let (draft, rest) := draft.stars rest
    readFrom n draft rest
  | n + 1, draft, '*' :: rest => readFrom n (draft.push .anyBytes '*') rest
  | n + 1, draft, '{' :: rest =>
    readFrom n
      { draft with
        tokens := [], previous := some '{', outer := (draft.tokens, []) :: draft.outer } rest
  | n + 1, draft, '}' :: rest =>
    match draft.close with
    | .error cause => throw cause
    | .ok draft => readFrom n draft rest
  | n + 1, draft, ',' :: rest => readFrom n draft.comma rest
  | _ + 1, _, ['\\'] => throw .danglingEscape
  | n + 1, draft, '\\' :: c :: rest => readFrom n (draft.push (.literal c) c) rest
  | n + 1, draft, '[' :: rest =>
    if draft.unclosed then readFrom n (draft.push (.literal '[') '[') rest
    else
      match readClass rest with
      | .error cause => throw cause
      | .ok none => readFrom n { draft.push (.literal '[') '[' with unclosed := true } rest
      | .ok (some (token, rest)) => readFrom n (draft.push token ']') rest
  | n + 1, draft, c :: rest => readFrom n (draft.push (.literal c) c) rest

def read (text : Text) : Except GlobError Glob := do
  let draft ← readFrom text.length {} text
  if draft.outer.isEmpty then return draft.tokens.reverse else throw .unclosedBraces

/-- The bytes of a text, each as the character with its number. -/
def bytesOf (text : Text) : Text :=
  (text.flatMap String.utf8EncodeChar).map fun byte => Char.ofNat byte.toNat

def slash : CharClass := .single '/'

def everything : CharClass := .not .never

/-- The bytes a range allows: those of its ends, and all between the last byte of the low end and
the first byte of the high end. -/
def rangeClass (low high : Char) : CharClass :=
  if low = high then .anyOf ((bytesOf [low]).map .single)
  else
    match (bytesOf [low]).reverse, bytesOf [high] with
    | last :: before, first :: after =>
      .either (.range last first) (.anyOf ((before ++ after).map .single))
    | _, _ => .never

def andThen (first second : Pattern) : Pattern :=
  if first = .empty then second else if second = .empty then first else .seq first second

def anyOfPatterns : List Pattern → Pattern
  | [] => .empty
  | first :: rest =>
    if first = .empty then anyOfPatterns rest
    else
      match anyOfPatterns rest with
      | .empty => first
      | others => .alt first others

mutual

def Token.pattern : Token → Pattern
  | .literal c => .literal (bytesOf [c])
  | .anyByte => .one (.not slash)
  | .anyBytes => .anyNumber (.not slash)
  | .anyOf negated ranges =>
    let cls := CharClass.anyOf (ranges.map fun (low, high) => rangeClass low high)
    .one (if negated then .not cls else cls)
  | .piecesFirst =>
    .alt (.optional (.one slash)) (.seq (.anyNumber everything) (.one slash))
  | .piecesBetween =>
    .alt (.one slash) (.inOrder [.one slash, .anyNumber everything, .one slash])
  | .piecesLast => .seq (.one slash) (.anyNumber everything)
  | .oneOf branches => anyOfPatterns (branchPatterns branches)

def tokensPattern : List Token → Pattern
  | [] => .empty
  | token :: rest => andThen token.pattern (tokensPattern rest)

def branchPatterns : List (List Token) → List Pattern
  | [] => []
  | tokens :: rest => tokensPattern tokens :: branchPatterns rest

end

def pattern : Glob → Pattern
  | [.piecesFirst] => .anyNumber everything
  | glob => tokensPattern glob

def covers (glob : Glob) (path : Text) : Bool :=
  ((Pattern.seq (pattern glob) .textEnd).matchAt 0 (bytesOf path)).isSome

end Glob

end Codemod
