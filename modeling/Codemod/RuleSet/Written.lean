import Codemod.RuleSet

/-!
# Rules in written form

The rules with their patterns and templates written out as texts. A symbol, a
module or a type may be any text, so its marks are escaped before it is put in:
for a pattern the characters that have a meaning there, for a template the
dollar sign. Reading the rules fails if one of the patterns cannot be read.
-/

namespace Codemod

def Pattern.marks : List Char :=
  ['\\', '.', '+', '*', '?', '(', ')', '|', '[', ']', '{', '}', '^', '$', '#', '&', '-', '~']

def Pattern.escape (text : Text) : Text :=
  text.flatMap fun c => if c ∈ marks then ['\\', c] else [c]

def Template.escape (text : Text) : Text :=
  text.flatMap fun c => if c = '$' then ['$', '$'] else [c]

namespace EnumRules

/-- A braced import from a module. `before` is what may stand between the blanks behind the brace
and the symbol. -/
def writtenImport (before symbol module : String) : String :=
  "import\\s*\\\x7b\\s*" ++ before ++ String.ofList (Pattern.escape symbol.toList) ++
    "[^\x7d]*\\\x7d\\s*from\\s*\"" ++ String.ofList (Pattern.escape module.toList) ++
    "\";(?:\\r?\\n)?"

def readImportRule (module symbol : String) : Except RuleError (Rule Pattern) :=
  Rule.read ("import \x7b " ++ symbol ++ " \x7d") (writtenImport "[^\x7d]*" symbol module) ""

def readNamespaceRule (module : String) : Except RuleError (Rule Pattern) :=
  Rule.read ("import \x7b " ++ namespaceName ++ ".. \x7d")
    (writtenImport "" namespaceName module) ""

def read (table : EnumTable) : Except RuleError (RuleGroup Pattern) := do
  let imports ← table.symbols.mapM (readImportRule table.module)
  let leading ← readNamespaceRule table.module
  return { category := .enums, rules := imports ++ [leading] ++ tokenRules table }

end EnumRules

namespace CallbackRules

def writtenCall (name : String) (isAsync : Bool) (parameters : String) : String :=
  "\\" ++ name ++ "\\s*\\(\\s*" ++ (if isAsync then "async\\s*" else "") ++ "\\(\\s*" ++
    parameters ++ "\\s*\\)"

def writtenTypedCall (name : String) (isAsync : Bool) (parameters : String) : String :=
  String.ofList (Template.escape name.toList) ++ (if isAsync then "(async (" else "((") ++
    parameters ++ ")"

def writtenTyped (index : String) (type : Text) : String :=
  "$\x7b" ++ index ++ "\x7d: " ++ String.ofList (Template.escape type)

def readSingleRule (type : Text) (label name : String) (isAsync : Bool) :
    Except RuleError (Rule Pattern) :=
  Rule.read label (writtenCall name isAsync "(\\w+)")
    (writtenTypedCall name isAsync (writtenTyped "1" type))

def readCallbackRule (type : Text) (callback : Callback) : Except RuleError (Rule Pattern) :=
  let mark := if callback.isAsync then "async " else ""
  readSingleRule type ("." ++ callback.method ++ "(" ++ mark ++ "(x))") ("." ++ callback.method)
    callback.isAsync

def readSortRule (type : Text) : Except RuleError (Rule Pattern) :=
  Rule.read ".sort((a, b))" (writtenCall ".sort" false "(\\w+),\\s*(\\w+)")
    (writtenTypedCall ".sort" false (writtenTyped "1" type ++ ", " ++ writtenTyped "2" type))

def read (fallbackType : String) : Except RuleError (RuleGroup Pattern) := do
  let type := fallbackType.toList
  let transaction ← readSingleRule type "$transaction(async (x))" "$transaction" true
  let singles ← callbacks.mapM (readCallbackRule type)
  let sort ← readSortRule type
  return { category := .types, rules := transaction :: singles ++ [sort] }

end CallbackRules

def RuleSet.read (table : EnumTable) : Except RuleError (RuleSet Pattern) := do
  let enums ← EnumRules.read table
  let types ← CallbackRules.read table.fallbackType
  return { enums, types }

end Codemod
