import Codemod.Migration
import Codemod.Proofs.FileTree
import Codemod.Proofs.Replacing

/-!
# The groups over one file

Whether the groups find the file as the one before has written it or are handed
its text, they make the same of it: the same revisions, and in a real run the
revised text in its place. What is not a text fails at the first read, before
anything is written.
-/

namespace Codemod

open FileTree (encode decode)

-- ---------------------------------------------------------------------------
-- Texts
-- ---------------------------------------------------------------------------

namespace RuleGroup

variable {ρ : Type} [PatternLanguage ρ]

/-- What a group makes of a text; nothing if the text stays as it is. -/
def revision? (group : RuleGroup ρ) (source : Text) : Option Revision :=
  match group.apply source with
  | .ok revision => revision
  | .error _ => none

def revised (group : RuleGroup ρ) (source : Text) : Text :=
  ((group.revision? source).map (·.content)).getD source

variable [PatternLanguage.Lawful ρ]

theorem apply_eq_ok (group : RuleGroup ρ) (source : Text) :
    group.apply source = .ok (group.revision? source) := by
  simp [revision?, apply, applyRules_eq_ok, bind, Except.bind, pure, Except.pure]

theorem revised_eq_rewritten (group : RuleGroup ρ) (source : Text) :
    group.revised source = rewritten group.rules source := by
  by_cases same : rewritten group.rules source = source
  · simp [revised, revision?, apply, applyRules_eq_ok, same, bind, Except.bind, pure, Except.pure]
  · simp [revised, revision?, apply, applyRules_eq_ok, same, bind, Except.bind, pure, Except.pure]

theorem apply_eq_none_iff (group : RuleGroup ρ) (source : Text) :
    group.apply source = .ok none ↔ rewritten group.rules source = source := by
  simp [apply, applyRules_eq_ok, bind, Except.bind, pure, Except.pure]

theorem revision?_eq_some {group : RuleGroup ρ} {source : Text} {revision : Revision}
    (h : group.revision? source = some revision) :
    revision.content = rewritten group.rules source ∧
      revision.hits = firings group.rules source ∧ rewritten group.rules source ≠ source := by
  simp only [revision?, apply, applyRules_eq_ok, bind, Except.bind, pure, Except.pure] at h
  split at h
  next => cases h
  next changed =>
    cases h
    exact ⟨rfl, rfl, changed⟩

end RuleGroup

namespace RuleSet

variable {ρ : Type} [PatternLanguage ρ]

/-- The text that groups leave, each over what the one before has left. -/
def revised (rules : RuleSet ρ) (categories : List Category) (text : Text) : Text :=
  categories.foldl (fun text category => (rules.group category).revised text) text

def revisions (rules : RuleSet ρ) : List Category → Text → List (Category × Option Revision)
  | [], _ => []
  | category :: rest, text =>
    (category, (rules.group category).revision? text) ::
      rules.revisions rest ((rules.group category).revised text)

/-- The bytes that groups leave. Bytes that are not a text stay. -/
def revisedBytes (rules : RuleSet ρ) (categories : List Category) (bytes : List UInt8) :
    List UInt8 :=
  match decode bytes with
  | .ok text => encode (rules.revised categories text)
  | .error _ => bytes

@[simp] theorem revisedBytes_encode (rules : RuleSet ρ) (categories : List Category) (text : Text) :
    rules.revisedBytes categories (encode text) = encode (rules.revised categories text) := by
  simp [revisedBytes]

theorem revisedBytes_nil (rules : RuleSet ρ) (bytes : List UInt8) :
    rules.revisedBytes [] bytes = bytes := by
  rw [revisedBytes]
  split
  next text isText => exact (FileTree.decode_eq_ok_iff.mp isText).symm
  next => rfl

end RuleSet

-- ---------------------------------------------------------------------------
-- Files
-- ---------------------------------------------------------------------------

namespace FileTree

variable {tree middle after : FileTree} {path : Path} {location : Location} {old bytes : List UInt8}

theorem readBytes_eq (located : tree.locate path = .ok location)
    (found : tree.entry? location = some (.file bytes)) : tree.readBytes path = .ok bytes := by
  simp [readBytes, located, readAt, found, bind, Except.bind, pure, Except.pure]

theorem readText_eq (located : tree.locate path = .ok location)
    (found : tree.entry? location = some (.file bytes)) : tree.readText path = decode bytes := by
  simp [readText, readBytes_eq located found, bind, Except.bind]

theorem writeText_eq_ok (located : tree.locate path = .ok location)
    (found : tree.entry? location = some (.file bytes)) (text : Text) :
    tree.writeText path text = .ok (tree.overwrite location (encode text)) := by
  simp [writeText, located, isDirectoryAt, found, pure, Except.pure]

/-- One file holds the bytes, and everything else is as it was. -/
structure Rewrites (tree : FileTree) (location : Location) (bytes : List UInt8)
    (after : FileTree) : Prop where
  current : after.current = tree.current
  entries : ∀ other, after.entry? other =
    if other = location then some (.file bytes) else tree.entry? other

namespace Rewrites

theorem refl (found : tree.entry? location = some (.file bytes)) :
    Rewrites tree location bytes tree := by
  refine ⟨rfl, fun other => ?_⟩
  split
  next here => rw [here, found]
  next => rfl

theorem overwrite (found : tree.entry? location = some (.file old)) (bytes : List UInt8) :
    Rewrites tree location bytes (tree.overwrite location bytes) :=
  ⟨rfl, entry?_overwrite found bytes⟩

theorem trans (first : Rewrites tree location old middle)
    (second : Rewrites middle location bytes after) : Rewrites tree location bytes after := by
  refine ⟨second.current.trans first.current, fun other => ?_⟩
  rw [second.entries, first.entries]
  split <;> rfl

theorem entry?_eq (h : Rewrites tree location bytes after) :
    after.entry? location = some (.file bytes) := by simp [h.entries]

theorem alike (h : Rewrites tree location bytes after)
    (found : tree.entry? location = some (.file old)) : Alike tree after := by
  refine ⟨h.current, fun other => ?_⟩
  rw [kind?, kind?, h.entries]
  split
  next here => simp [here, found, Entry.kind]
  next => rfl

end Rewrites

end FileTree

namespace Migration

open FileTree (Rewrites)

variable {ρ : Type} [PatternLanguage ρ]

def passesOn (rules : RuleSet ρ) (path : Path) (categories : List Category) (bytes : List UInt8) :
    Passes :=
  if categories = [] then {}
  else
    match decode bytes with
    | .ok text => { revisions := rules.revisions categories text }
    | .error cause => { failure := some (.unreadable path cause) }

variable [PatternLanguage.Lawful ρ] {tree : FileTree} {path : Path} {location : Location}
  {text : Text} {bytes : List UInt8}

theorem fixFile_eq_ok (located : tree.locate path = .ok location)
    (found : tree.entry? location = some (.file (encode text))) (group : RuleGroup ρ) :
    ∃ next, fixFile tree path group = .ok (group.revision? text, next) ∧
      Rewrites tree location (encode (group.revised text)) next := by
  have read : readSource tree path = .ok text := by
    simp [readSource, FileTree.readText_eq located found, Except.mapError]
  have applied : applyGroup group path text = .ok (group.revision? text) := by
    simp [applyGroup, group.apply_eq_ok, Except.mapError]
  cases revision : group.revision? text with
  | none =>
    refine ⟨tree, ?_, ?_⟩
    · simp [fixFile, read, applied, revision, bind, Except.bind, pure, Except.pure]
    · simpa [RuleGroup.revised, revision] using Rewrites.refl found
  | some revision' =>
    refine ⟨tree.overwrite location (encode revision'.content), ?_, ?_⟩
    · simp [fixFile, read, applied, revision, FileTree.writeText_eq_ok located found, bind,
        Except.bind, pure, Except.pure, Except.mapError]
    · simpa [RuleGroup.revised, revision] using Rewrites.overwrite found (encode revision'.content)

theorem fixPasses_text (rules : RuleSet ρ) (categories : List Category)
    (located : tree.locate path = .ok location)
    (found : tree.entry? location = some (.file (encode text))) :
    ∃ next, fixPasses rules path categories tree =
        ({ revisions := rules.revisions categories text }, next) ∧
      Rewrites tree location (encode (rules.revised categories text)) next := by
  induction categories generalizing tree text with
  | nil => exact ⟨tree, rfl, .refl found⟩
  | cons category rest ih =>
    obtain ⟨middle, fixed, written⟩ := fixFile_eq_ok located found (rules.group category)
    have relocated : middle.locate path = .ok location := by
      rw [(written.alike found).locate_eq, located]
    obtain ⟨next, passed, rewritten⟩ := ih relocated written.entry?_eq
    refine ⟨next, ?_, written.trans rewritten⟩
    simp [fixPasses, fixed, passed, Passes.cons, RuleSet.revisions]

theorem dryPasses_some (rules : RuleSet ρ) (tree : FileTree) (path : Path)
    (categories : List Category) (text : Text) :
    dryPasses rules tree path categories (some text) =
      ({ revisions := rules.revisions categories text }, some (rules.revised categories text)) := by
  induction categories generalizing text with
  | nil => rfl
  | cons category rest ih =>
    have applied := (rules.group category).apply_eq_ok text
    simp [dryPasses, stagedSource, applyGroup, applied, Except.mapError, pure, Except.pure, ih,
      Passes.cons, RuleSet.revisions, RuleSet.revised, RuleGroup.revised]

theorem dryPasses_of_readText (rules : RuleSet ρ) {categories : List Category}
    (ne : categories ≠ []) (read : tree.readText path = .ok text) :
    dryPasses rules tree path categories none =
      ({ revisions := rules.revisions categories text }, some (rules.revised categories text)) := by
  obtain ⟨category, rest, rfl⟩ := List.exists_cons_of_ne_nil ne
  rw [← dryPasses_some rules tree path]
  simp [dryPasses, stagedSource, readSource, read, Except.mapError, pure, Except.pure]

theorem dryPasses_none (rules : RuleSet ρ) (categories : List Category)
    (located : tree.locate path = .ok location)
    (found : tree.entry? location = some (.file bytes)) :
    (dryPasses rules tree path categories none).1 = passesOn rules path categories bytes := by
  have read := FileTree.readText_eq located found
  cases categories with
  | nil => rfl
  | cons category rest =>
    rw [passesOn, if_neg (List.cons_ne_nil category rest)]
    cases isText : decode bytes with
    | error cause => simp [dryPasses, stagedSource, readSource, read, isText, Except.mapError]
    | ok text =>
      rw [dryPasses_of_readText rules (List.cons_ne_nil category rest) (read.trans isText)]

theorem fixPasses_eq (rules : RuleSet ρ) (categories : List Category)
    (located : tree.locate path = .ok location)
    (found : tree.entry? location = some (.file bytes)) :
    ∃ next, fixPasses rules path categories tree = (passesOn rules path categories bytes, next) ∧
      Rewrites tree location (rules.revisedBytes categories bytes) next := by
  cases categories with
  | nil => exact ⟨tree, rfl, by simpa [RuleSet.revisedBytes_nil] using Rewrites.refl found⟩
  | cons category rest =>
    rw [passesOn, if_neg (List.cons_ne_nil category rest), RuleSet.revisedBytes]
    cases isText : decode bytes with
    | error cause =>
      refine ⟨tree, ?_, .refl found⟩
      simp [fixPasses, fixFile, readSource, FileTree.readText_eq located found, isText,
        Except.mapError, bind, Except.bind]
    | ok text =>
      obtain rfl := FileTree.decode_eq_ok_iff.mp isText
      exact fixPasses_text rules (category :: rest) located found

/-- Both kinds of runs make the same of a file; a real run also writes it. -/
theorem filePasses_eq (rules : RuleSet ρ) (options : Options)
    (located : tree.locate path = .ok location)
    (found : tree.entry? location = some (.file bytes)) :
    ∃ next, filePasses rules options tree path =
        (passesOn rules path options.categories bytes, next) ∧
      Rewrites tree location
        (if options.dryRun then bytes else rules.revisedBytes options.categories bytes) next := by
  rw [filePasses]
  split
  next => exact ⟨tree, by rw [dryPasses_none rules _ located found], .refl found⟩
  next => exact fixPasses_eq rules options.categories located found

end Migration

end Codemod
