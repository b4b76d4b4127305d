import Codemod.Rule
import Codemod.Text.Alphabetic
import Codemod.Text.Numeric

/-!
# Enum tables

Which enums a code base takes from its database client, and the string
literal that stands for each of their values. There is a built-in table; more
enums are registered after its entries.
-/

namespace Codemod

/-- Letters, digits, underscores and dollar signs, not starting with a digit. -/
def isIdentifier (name : String) : Bool :=
  match name.toList with
  | [] => false
  | c :: rest =>
    (Text.isAlphabetic c || c == '_' || c == '$') &&
      rest.all fun c => Text.isAlphabetic c || Text.isNumeric c || c == '_' || c == '$'

structure EnumTable where
  module : String
  symbols : List String
  replacements : List (String × String)
  fallbackType : String
  deriving DecidableEq, Repr

namespace EnumTable

def token (name value : String) : String := name ++ "." ++ value

def quoted (value : String) : String := "\"" ++ value ++ "\""

def builtInEnums : List (String × List String) :=
  [("OrderStatus", ["PAID", "PENDING", "DELIVERED", "COMPLETED", "CANCELLED"]),
   ("TicketStatus", ["AVAILABLE", "RESERVED", "SOLD"]),
   ("PaymentStatus", ["SUCCEEDED", "PENDING"]),
   ("TicketEscrowState", ["HELD", "RELEASED_TO_BUYER", "RELEASED_BACK_TO_SELLER"]),
   ("TicketVerificationStatus", ["PENDING", "VERIFIED", "NEEDS_REVIEW", "REJECTED"]),
   ("ForumVisibility", ["VISIBLE", "HIDDEN", "DELETED"]),
   ("ForumTopicType", ["ARTIST", "TEAM", "SHOW", "OTHER"])]

def builtIn : EnumTable where
  module := "@prisma/client"
  symbols := builtInEnums.map Prod.fst
  replacements := builtInEnums.flatMap fun (name, values) =>
    values.map fun value => (token name value, quoted value)
  fallbackType := "any"

def addSymbol (table : EnumTable) (name : String) : EnumTable :=
  if name ∈ table.symbols then table else { table with symbols := table.symbols ++ [name] }

def addValue (name : String) (table : EnumTable) (value : String) : EnumTable :=
  if table.replacements.any (·.1 = token name value) then table
  else { table with replacements := table.replacements ++ [(token name value, quoted value)] }

def refusal? (enum : String × List String) : Option RuleError :=
  if !isIdentifier enum.1 then some (.notIdentifier "enum" enum.1)
  else (enum.2.find? (!isIdentifier ·)).map (.notIdentifier "enum value")

/-- Registers an enum with its values: the refusal if there is one, and the table afterwards. -/
def attempt (table : EnumTable) (enum : String × List String) : Option RuleError × EnumTable :=
  match refusal? enum with
  | some cause => (some cause, table)
  | none => (none, enum.2.foldl (addValue enum.1) (table.addSymbol enum.1))

def register (table : EnumTable) (enum : String × List String) : Except RuleError EnumTable :=
  match table.attempt enum with
  | (some cause, _) => throw cause
  | (none, next) => pure next

def registerAll (table : EnumTable) (enums : List (String × List String)) :
    Except RuleError EnumTable :=
  enums.foldlM register table

end EnumTable

end Codemod
