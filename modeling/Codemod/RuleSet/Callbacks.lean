import Codemod.Pattern.Reader
import Codemod.RuleGroup

/-!
# Callback rules

Callbacks with bare parameters get the fallback type written after each
parameter. Matching is by shape alone, so strings and comments take part too.
Blanks inside the shape are not kept.
-/

namespace Codemod.CallbackRules

open Pattern

structure Callback where
  method : String
  isAsync : Bool
  deriving DecidableEq, Repr

def callbacks : List Callback :=
  [⟨"map", false⟩, ⟨"map", true⟩, ⟨"filter", false⟩, ⟨"flatMap", false⟩, ⟨"find", false⟩,
   ⟨"some", false⟩]

def blanks : Pattern := anyNumber .space

def parameter (index : Nat) : Pattern := Pattern.group index (atLeastOne .word)

def openParenthesis : Pattern := one (.single '(')

def closeParenthesis : Pattern := one (.single ')')

/-- A call whose argument starts with a parameter list: `name ( mark ( parameters )`. -/
def call (name : String) (isAsync : Bool) (parameters : List Pattern) : Pattern :=
  inOrder ([literal name.toList, blanks, openParenthesis, blanks] ++
    (if isAsync then [literal "async".toList, blanks] else []) ++
    [openParenthesis, blanks] ++ parameters ++ [blanks, closeParenthesis])

def typed (index : Nat) (type : Text) : Template := [.group index, .text (": ".toList ++ type)]

def typedCall (name : String) (isAsync : Bool) (parameters : Template) : Template :=
  .text (name.toList ++ (if isAsync then "(async (" else "((").toList) :: parameters ++
    [.text [')']]

def singleRule (label name : String) (isAsync : Bool) (type : Text) : Rule Pattern where
  name := label
  action := .reshape (call name isAsync [parameter 1]) (typedCall name isAsync (typed 1 type))

def transactionRule (type : Text) : Rule Pattern :=
  singleRule "$transaction(async (x))" "$transaction" true type

def callbackRule (type : Text) (callback : Callback) : Rule Pattern :=
  let mark := if callback.isAsync then "async " else ""
  singleRule ("." ++ callback.method ++ "(" ++ mark ++ "(x))") ("." ++ callback.method)
    callback.isAsync type

def sortRule (type : Text) : Rule Pattern where
  name := ".sort((a, b))"
  action := .reshape
    (call ".sort" false [parameter 1, one (.single ','), blanks, parameter 2])
    (typedCall ".sort" false (typed 1 type ++ [.text ", ".toList] ++ typed 2 type))

def group (fallbackType : String) : RuleGroup Pattern where
  category := .types
  rules := transactionRule fallbackType.toList ::
    callbacks.map (callbackRule fallbackType.toList) ++ [sortRule fallbackType.toList]

end Codemod.CallbackRules
