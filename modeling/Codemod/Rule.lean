import Codemod.Edit
import Codemod.Search
import Codemod.Template

/-!
# Rules

A rule finds pieces of a text and says what replaces each of them. Its edits
leave out the pieces that would be replaced by themselves.
-/

namespace Codemod

inductive RuleError
  | unreadablePattern (rule : String)
  | notIdentifier (kind name : String)
  deriving DecidableEq, Repr

def RuleError.message : RuleError → String
  | unreadablePattern rule => s!"invalid pattern for rule '{rule}'"
  | notIdentifier kind name => s!"invalid {kind} name '{name}': expected an identifier"

inductive Rule.Action (ρ : Type)
  | substitute (needle replacement : Text)
  | reshape (pattern : ρ) (template : Template)
  deriving DecidableEq, Repr

structure Rule (ρ : Type) where
  name : String
  action : Rule.Action ρ
  deriving DecidableEq, Repr

namespace Rule

variable {ρ : Type}

def literal (needle replacement : String) : Rule ρ :=
  ⟨needle, .substitute needle.toList replacement.toList⟩

def Action.replacement : Action ρ → Match → Text
  | substitute _ replacement, _ => replacement
  | reshape _ template, piece => template.expand piece

def editOf (rule : Rule ρ) (piece : Match) : Edit where
  start := piece.start
  stop := piece.stop
  replacement := rule.action.replacement piece
  description := some rule.name

variable [PatternLanguage ρ]

def read (name pattern template : String) : Except RuleError (Rule ρ) :=
  match PatternLanguage.read? pattern.toList with
  | some named => pure ⟨name, .reshape named.pattern (.read named.names template.toList)⟩
  | none => throw (.unreadablePattern name)

def Action.pieces : Action ρ → Text → List Match
  | substitute needle _ => (Finder.ofText needle).pieces
  | reshape pattern _ => PatternLanguage.pieces pattern

def edits (rule : Rule ρ) (source : Text) : List Edit :=
  ((rule.action.pieces source).map rule.editOf).filter fun edit => !edit.isNoop source

end Rule

end Codemod
