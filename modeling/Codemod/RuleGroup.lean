import Codemod.Rule

/-!
# Rule groups

A group runs its rules in order, each over the text that the previous one
left. The result is a revision with the number of edits of every rule that
fired, or nothing if the text came out as it went in.
-/

namespace Codemod

inductive Category
  | enums
  | types
  deriving DecidableEq, Repr

namespace Category

/-- Printed before the notices about a file. -/
def tag : Category → String
  | enums => "[ENUMS]"
  | types => "[TYPES]"

def word : Category → String
  | enums => "enums"
  | types => "types"

def title : Category → String
  | enums => "Enums"
  | types => "Types"

def ofWord? : String → Option Category
  | "enums" => some enums
  | "types" => some types
  | _ => none

theorem ofWord?_word (category : Category) : ofWord? category.word = some category := by
  cases category <;> rfl

def all : List Category := [enums, types]

end Category

structure RuleHit where
  rule : String
  edits : Nat
  deriving DecidableEq, Repr

structure Revision where
  content : Text
  hits : List RuleHit
  deriving DecidableEq, Repr

def Revision.editCount (revision : Revision) : Nat :=
  revision.hits.foldr (fun hit count => hit.edits + count) 0

structure RuleGroup (ρ : Type) where
  category : Category
  rules : List (Rule ρ)
  deriving DecidableEq, Repr

namespace RuleGroup

variable {ρ : Type} [PatternLanguage ρ]

def applyRules : Text → List (Rule ρ) → Except EditError (Text × List RuleHit)
  | text, [] => pure (text, [])
  | text, rule :: rest => do
    match rule.edits text with
    | [] => applyRules text rest
    | edits@(_ :: _) =>
      let next ← Edit.applyAll text edits
      let (final, hits) ← applyRules next rest
      return (final, ⟨rule.name, edits.length⟩ :: hits)

/-- Nothing if the text does not change, even if rules fired on the way. -/
def apply (group : RuleGroup ρ) (source : Text) : Except EditError (Option Revision) := do
  let (content, hits) ← applyRules source group.rules
  return if content = source then none else some { content, hits }

end RuleGroup

end Codemod
