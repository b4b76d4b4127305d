import Codemod.Pattern
import Codemod.Text.Alphabetic
import Codemod.Text.Numeric

/-!
# Written patterns

The written form has literals, `.`, `^`, `$`, escapes of punctuation, the
classes `\w \d \s` and their complements, bracketed classes with ranges and
negation, groups that are numbered, named or plain, alternation, and the
repetitions `* + ? {m} {m,} {m,n}`, each lazy with a `?` after it. Anything
else is refused: back-references, look-around, word boundaries, flags, classes
by name. A language that has some of these is another `PatternLanguage`.

The functions below take a bound on the number of nested calls, for which the
length of the written form is enough.
-/

namespace Codemod

namespace Pattern.Reader

structure State where
  rest : Text
  groups : Nat := 0
  names : List (Text × Nat) := []

abbrev Reading := StateT State Option

def peek : Reading (Option Char) := return (← get).rest.head?

def next : Reading Char := do
  match (← get).rest with
  | [] => failure
  | c :: rest =>
    modify ({ · with rest })
    return c

def accept (c : Char) : Reading Bool := do
  match (← get).rest with
  | [] => return false
  | d :: rest =>
    if c = d then
      modify ({ · with rest })
      return true
    else return false

def acceptWord (word : Text) : Reading Bool := do
  let rest := (← get).rest
  if word.isPrefixOf rest then
    modify ({ · with rest := rest.drop word.length })
    return true
  else return false

def takeWhile (test : Char → Bool) : Reading Text := do
  let (taken, rest) := (← get).rest.span test
  modify ({ · with rest })
  return taken

def openGroup : Reading Nat := do
  let index := (← get).groups + 1
  modify ({ · with groups := index })
  return index

def nameGroup (name : Text) (index : Nat) : Reading Unit := do
  let names := (← get).names
  if (names.lookup name).isSome then failure
  modify ({ · with names := names ++ [(name, index)] })

def isAlphanumeric (c : Char) : Bool := Text.isAlphabetic c || Text.isNumeric c

def isGroupName : Text → Bool
  | [] => false
  | c :: rest =>
    (c == '_' || Text.isAlphabetic c) &&
      rest.all fun c => c == '_' || c == '.' || c == '[' || c == ']' || isAlphanumeric c

/-- ASCII punctuation and blanks stand for themselves after a backslash, the angle brackets
excepted. -/
def isEscapable (c : Char) : Bool :=
  c.toNat < 128 && !c.isAlphanum && c != '<' && c != '>'

def escaped : Reading CharClass := do
  match ← next with
  | 'w' => return .word
  | 'W' => return .not .word
  | 'd' => return .digit
  | 'D' => return .not .digit
  | 's' => return .space
  | 'S' => return .not .space
  | 'a' => return .single '\x07'
  | 'f' => return .single '\x0C'
  | 'n' => return .single '\n'
  | 'r' => return .single '\r'
  | 't' => return .single '\t'
  | 'v' => return .single '\x0B'
  | c => if isEscapable c then return .single c else failure

def classItem : Reading CharClass := do
  match ← next with
  | '[' => failure
  | '\\' => escaped
  | c => return .single c

def classRange : Reading CharClass := do
  let low ← classItem
  match (← get).rest with
  | '-' :: c :: _ =>
    if c = ']' || c = '-' then return low
    let _ ← next
    match low, ← classItem with
    | .single low, .single high =>
      if low.toNat ≤ high.toNat then return .range low high else failure
    | _, _ => failure
  | _ => return low

def classItems : Nat → Reading (List CharClass)
  | 0 => failure
  | n + 1 => do
    if ← accept ']' then return []
    match (← get).rest with
    | '&' :: '&' :: _ | '-' :: '-' :: _ | '~' :: '~' :: _ => failure
    | _ =>
      let item ← classRange
      return item :: (← classItems n)

/-- A bracketed class after its opening bracket. Hyphens at the start and a closing bracket that
comes first stand for themselves. -/
def bracketed : Reading CharClass := do
  let negated ← accept '^'
  let hyphens ← takeWhile (· == '-')
  let bracket ← if hyphens = [] then accept ']' else pure false
  let items ← classItems ((← get).rest.length + 1)
  let items := hyphens.map .single ++ (if bracket then [.single ']'] else []) ++ items
  return if negated then .not (.anyOf items) else .anyOf items

/-- A repetition count of at most 32 bits, with blanks around it. -/
def count? : Reading (Option Nat) := do
  let _ ← takeWhile Text.isWhiteSpace
  let digits ← takeWhile Char.isDigit
  let _ ← takeWhile Text.isWhiteSpace
  if digits = [] then return none
  let n := digits.foldl (fun n d => 10 * n + (d.toNat - '0'.toNat)) 0
  if n < 0x100000000 then return some n else failure

def bounds : Reading (Nat × Option Nat) := do
  let low ← count?
  let high ←
    if ← accept ',' then
      if (← peek) = some '}' then pure (some none) else pure ((← count?).map some)
    else pure (some low)
  unless ← accept '}' do failure
  match low, high with
  | some low, some none => return (low, none)
  | some low, some (some high) => if low ≤ high then return (low, some high) else failure
  | _, _ => failure

def repetitions : Nat → Pattern → Reading Pattern
  | 0, item => return item
  | n + 1, item => do
    let again (low : Nat) (high : Option Nat) : Reading Pattern := do
      let lazy ← accept '?'
      repetitions n (.rep item low high !lazy)
    match ← peek with
    | some '*' => do let _ ← next; again 0 none
    | some '+' => do let _ ← next; again 1 none
    | some '?' => do let _ ← next; again 0 (some 1)
    | some '{' => do
      let _ ← next
      let (low, high) ← bounds
      again low high
    | _ => return item

def groupName : Reading Text := do
  let name ← takeWhile (· != '>')
  unless ← accept '>' do failure
  if isGroupName name then return name else failure

def groupKind : Reading (Pattern → Pattern) := do
  if ← acceptWord ['?', ':'] then return id
  let named ← if ← acceptWord ['?', 'P', '<'] then pure true else acceptWord ['?', '<']
  if !named && (← peek) = some '?' then failure
  let index ← openGroup
  if named then nameGroup (← groupName) index
  return group index

mutual

def alternatives : Nat → Reading Pattern
  | 0 => failure
  | n + 1 => do
    let first ← items n
    if ← accept '|' then return .alt first (← alternatives n) else return first

def items : Nat → Reading Pattern
  | 0 => failure
  | n + 1 => do
    match ← peek with
    | none | some ')' | some '|' => return .empty
    | some _ =>
      let item ← repetitions n (← item n)
      return .seq item (← items n)

def item : Nat → Reading Pattern
  | 0 => failure
  | n + 1 => do
    match ← next with
    | '(' => grouped n
    | '[' => return .one (← bracketed)
    | '*' | '+' | '?' | '{' => failure
    | '\\' =>
      return .one (← escaped)
    | '.' => return .one .dot
    | '^' => return .textStart
    | '$' => return .textEnd
    | c => return .one (.single c)

def grouped : Nat → Reading Pattern
  | 0 => failure
  | n + 1 => do
    let wrap ← groupKind
    let body ← alternatives n
    unless ← accept ')' do failure
    return wrap body

end

end Pattern.Reader

def Pattern.read? (text : Text) : Option (NamedPattern Pattern) := do
  let (pattern, state) ←
    (Pattern.Reader.alternatives (3 * text.length + 3)).run { rest := text }
  if state.rest = [] then return { pattern, names := state.names } else none

instance : PatternLanguage Pattern where
  read? := Pattern.read?
  pieces pattern := (Finder.ofPattern pattern).pieces

end Codemod
