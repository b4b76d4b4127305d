import Codemod.EnumTable
import Codemod.Pattern.Reader
import Codemod.RuleGroup

/-!
# Enum rules

Imports of the table's enums are removed, then every token of the table is
replaced by its literal.

An import statement goes as a whole as soon as one of the names between its
braces contains an enum's name. The namespace of the client goes when it is the
first name, also as the start of a longer name.
-/

namespace Codemod.EnumRules

open Pattern

def namespaceName : String := "Prisma"

def requestError : String := "Prisma.PrismaClientKnownRequestError"

def blanks : Pattern := anyNumber .space

def insideBraces : Pattern := anyNumber (.not (.single '}'))

def lineEnd : Pattern := seq (optional (one (.single '\r'))) (one (.single '\n'))

/-- A braced import from a module, up to the end of its line if that follows directly. -/
def importOf (body : Pattern) (module : String) : Pattern :=
  inOrder [literal "import".toList, blanks, one (.single '{'), blanks, body, insideBraces,
    one (.single '}'), blanks, literal "from".toList, blanks, one (.single '"'),
    literal module.toList, literal "\";".toList, optional lineEnd]

def importNaming (symbol module : String) : Pattern :=
  importOf (seq insideBraces (literal symbol.toList)) module

def importLeading (symbol module : String) : Pattern := importOf (literal symbol.toList) module

def importRule (module symbol : String) : Rule Pattern where
  name := "import \x7b " ++ symbol ++ " \x7d"
  action := .reshape (importNaming symbol module) []

def namespaceRule (module : String) : Rule Pattern where
  name := "import \x7b " ++ namespaceName ++ ".. \x7d"
  action := .reshape (importLeading namespaceName module) []

def tokenRule (entry : String × String) : Rule Pattern := .literal entry.1 entry.2

def tokenRules (table : EnumTable) : List (Rule Pattern) :=
  table.replacements.map tokenRule ++ [.literal requestError table.fallbackType]

def importRules (table : EnumTable) : List (Rule Pattern) :=
  table.symbols.map (importRule table.module) ++ [namespaceRule table.module]

def group (table : EnumTable) : RuleGroup Pattern where
  category := .enums
  rules := importRules table ++ tokenRules table

end Codemod.EnumRules
