import Codemod.Proofs.Runs

/-!
# Real runs in trees without links

Where no two paths lead to one file, a run that succeeds has revised each file
that it found exactly once (`Complete`). One that fails has done so up to the
first file that is not a text, and has done nothing from there on (`Aborted`),
so that no file is left half revised (`Whole`).
-/

namespace Codemod

namespace Migration

variable {ρ : Type} [PatternLanguage ρ] {rules : RuleSet ρ} {options : Options} {tree : FileTree}
  {paths : List Path} {path : Path}

/-- The file that the path leads to holds what the groups make of it. -/
def RevisedAt (rules : RuleSet ρ) (categories : List Category) (tree after : FileTree)
    (path : Path) : Prop :=
  ∃ location bytes, tree.locate path = .ok location ∧
    tree.entry? location = some (.file bytes) ∧
    after.entry? location = some (.file (rules.revisedBytes categories bytes))

/-- Nothing has changed but the files that the paths lead to. -/
def UnchangedBut (paths : List Path) (tree after : FileTree) : Prop :=
  ∀ location, (∀ path ∈ paths, tree.locate path ≠ .ok location) →
    after.entry? location = tree.entry? location

namespace Outcome

variable {failure : Option Failure} {run : Run}

theorem visited_of_real (h : Outcome rules options tree paths failure run)
    (real : options.dryRun = false) :
    Visited rules options.categories tree paths run.progress.tree := by
  simpa [written, real] using h.visited

theorem revisedAt (h : Outcome rules options tree paths failure run)
    (real : options.dryRun = false) (apart : Apart tree paths) (mem : path ∈ paths)
    (holds : tree.HoldsFile path) :
    RevisedAt rules options.categories tree run.progress.tree path := by
  obtain ⟨location, bytes, located, found⟩ := holds
  exact ⟨location, bytes, located, found,
    (h.visited_of_real real).entry?_of_mem apart mem located found⟩

theorem unchangedBut (h : Outcome rules options tree paths failure run)
    (real : options.dryRun = false) : UnchangedBut paths tree run.progress.tree :=
  fun _ elsewhere => (h.visited_of_real real).entry?_of_ne elsewhere

end Outcome

/-- Every file is as it was, or all groups have gone over it. -/
def Whole (rules : RuleSet ρ) (categories : List Category) (tree after : FileTree) : Prop :=
  ∀ location, after.entry? location = tree.entry? location ∨
    ∃ bytes, tree.entry? location = some (.file bytes) ∧
      after.entry? location = some (.file (rules.revisedBytes categories bytes))

theorem Outcome.whole {failure : Option Failure} {run : Run}
    (h : Outcome rules options tree paths failure run) (real : options.dryRun = false)
    (apart : Apart tree paths) (holds : ∀ path ∈ paths, tree.HoldsFile path) :
    Whole rules options.categories tree run.progress.tree := by
  intro location
  by_cases visited : ∃ path ∈ paths, tree.locate path = .ok location
  · obtain ⟨path, mem, located⟩ := visited
    obtain ⟨place, bytes, located', found, revised⟩ := h.revisedAt real apart mem (holds path mem)
    obtain rfl : location = place := Except.ok.inj (located.symm.trans located')
    exact .inr ⟨bytes, found, revised⟩
  · exact .inl (h.unchangedBut real location fun path mem same => visited ⟨path, mem, same⟩)

end Migration

end Codemod
