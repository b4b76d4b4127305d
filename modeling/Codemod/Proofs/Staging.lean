import Codemod.Proofs.DryRun
import Codemod.Proofs.Footprint

/-!
# Handing a text on instead of writing it

Over one file, wherever its path leads and whatever it holds, a dry run makes
what a real run makes of it (`Mirrored`). The text that a dry run has at hand at
the end is the one that a real run has left in the file.
-/

namespace Codemod

namespace Migration

variable {ρ : Type} [PatternLanguage ρ] {categories : List Category} {tree : FileTree} {path : Path}
  {text : Text} {cause : FileError}

theorem dryPasses_of_unreadable (rules : RuleSet ρ) (ne : categories ≠ [])
    (read : tree.readText path = .error cause) :
    dryPasses rules tree path categories none =
      ({ failure := some (.unreadable path cause) }, none) := by
  obtain ⟨category, rest, rfl⟩ := List.exists_cons_of_ne_nil ne
  simp [dryPasses, stagedSource, readSource, read, Except.mapError]

theorem fixPasses_of_unreadable (rules : RuleSet ρ) (ne : categories ≠ [])
    (read : tree.readText path = .error cause) :
    fixPasses rules path categories tree =
      ({ failure := some (.unreadable path cause) }, tree) := by
  obtain ⟨category, rest, rfl⟩ := List.exists_cons_of_ne_nil ne
  simp [fixPasses, fixFile, readSource, read, Except.mapError, bind, Except.bind]

theorem fixPasses_of_readText [PatternLanguage.Lawful ρ] (rules : RuleSet ρ)
    (categories : List Category) (read : tree.readText path = .ok text) :
    ∃ next, fixPasses rules path categories tree =
        ({ revisions := rules.revisions categories text }, next) ∧
      next.readText path = .ok (rules.revised categories text) := by
  obtain ⟨location, bytes, located, found⟩ := FileTree.holdsFile_of_readText read
  obtain rfl : bytes = FileTree.encode text := by
    rw [FileTree.readText_eq located found] at read
    exact FileTree.decode_eq_ok_iff.mp read
  obtain ⟨next, passed, written⟩ := fixPasses_text rules categories located found
  have relocated : next.locate path = .ok location := by
    rw [(written.alike found).locate_eq, located]
  refine ⟨next, passed, ?_⟩
  rw [FileTree.readText_eq relocated written.entry?_eq, FileTree.decode_encode]

theorem filePasses_dry (rules : RuleSet ρ) (options : Options) (tree : FileTree) (path : Path) :
    filePasses rules options.dry tree path =
      ((dryPasses rules tree path options.categories none).1, tree) := rfl

theorem filePasses_real (rules : RuleSet ρ) (options : Options) (tree : FileTree) (path : Path) :
    filePasses rules options.real tree path = fixPasses rules path options.categories tree := rfl

structure Mirrored (rules : RuleSet ρ) (options : Options) (tree : FileTree) (path : Path) :
    Prop where
  passes : (filePasses rules options.dry tree path).1 = (filePasses rules options.real tree path).1
  /-- What is at hand at the end of the dry run is in the file at the end of the real one. -/
  staged : options.categories ≠ [] → (filePasses rules options.real tree path).1.failure = none →
    ∃ text, tree.readText path = .ok text ∧
      (dryPasses rules tree path options.categories none).2 =
        some (rules.revised options.categories text) ∧
      (filePasses rules options.real tree path).2.readText path =
        .ok (rules.revised options.categories text)
  untouched : (filePasses rules options.dry tree path).2 = tree
  confined : Confined [path] tree (filePasses rules options.real tree path).2

/-- A dry run over one file mirrors a real one, for all groups in all orders. -/
theorem filePasses_mirrored [PatternLanguage.Lawful ρ] (rules : RuleSet ρ) (options : Options)
    (tree : FileTree) (path : Path) : Mirrored rules options tree path := by
  have confined := filePasses_confined rules options.real tree path
  by_cases ne : options.categories = []
  · refine ⟨?_, fun nonempty => absurd ne nonempty, rfl, confined⟩
    rw [filePasses_dry, filePasses_real, ne]
    rfl
  · cases read : tree.readText path with
    | error cause =>
      have failed := fixPasses_of_unreadable rules ne read
      refine ⟨?_, fun _ succeeds => ?_, rfl, confined⟩
      · rw [filePasses_dry, filePasses_real, dryPasses_of_unreadable rules ne read, failed]
      · rw [filePasses_real, failed] at succeeds
        cases succeeds
    | ok text =>
      have handed := dryPasses_of_readText rules ne read
      obtain ⟨next, passed, left⟩ := fixPasses_of_readText rules options.categories read
      refine ⟨?_, fun _ _ => ⟨text, read, ?_, ?_⟩, rfl, confined⟩
      · rw [filePasses_dry, filePasses_real, handed, passed]
      · rw [handed]
      · rw [filePasses_real, passed, left]

theorem filePasses_mirrored_link :
    ∃ text, (dryPasses (.ofTable .builtIn) linkedTree "b.ts" [.enums, .types, .enums] none).2 =
        some text ∧
      (fixPasses (.ofTable .builtIn) "b.ts" [.enums, .types, .enums] linkedTree).2.readText
        "b.ts" = .ok text := by
  have mirrored := filePasses_mirrored (.ofTable .builtIn)
    { categories := [.enums, .types, .enums] } linkedTree "b.ts"
  obtain ⟨text, -, staged, left⟩ := mirrored.staged (List.cons_ne_nil _ _) (by decide +kernel)
  rw [filePasses_real] at left
  exact ⟨_, staged, left⟩

end Migration

end Codemod
