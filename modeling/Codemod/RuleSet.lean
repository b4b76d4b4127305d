import Codemod.RuleSet.Callbacks
import Codemod.RuleSet.Enums

/-!
# The two rule groups of a run
-/

namespace Codemod

structure RuleSet (ρ : Type) where
  enums : RuleGroup ρ
  types : RuleGroup ρ
  deriving DecidableEq, Repr

namespace RuleSet

def ofTable (table : EnumTable) : RuleSet Pattern where
  enums := EnumRules.group table
  types := CallbackRules.group table.fallbackType

def group {ρ : Type} (rules : RuleSet ρ) : Category → RuleGroup ρ
  | .enums => rules.enums
  | .types => rules.types

end RuleSet

end Codemod
