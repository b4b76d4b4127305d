import Codemod.Proofs.Passes
import Codemod.Proofs.Walk
import Mathlib.Logic.Function.Iterate

/-!
# Runs over all files

A run goes over the files that the walk has found, and stops at the first that
is not a text. By then a real run has revised each file as often as a path has
led to it, and a dry run has left them all as they were (`Visited`); what is
counted and printed are the fixes that the groups make to the texts they find
(`runFiles_append`).
-/

namespace Codemod

open FileTree (Entry encode decode)

namespace Migration

-- ---------------------------------------------------------------------------
-- Counting and printing
-- ---------------------------------------------------------------------------

def fixesOf (path : Path) (revisions : List (Category × Option Revision)) : List Fix :=
  revisions.filterMap fun (category, revision) => revision.map (⟨path, category, ·⟩)

def notices (fixes : List Fix) : String :=
  String.join (fixes.map fun fix => Report.fixNotice fix.category fix.file)

theorem notices_append (first second : List Fix) :
    notices (first ++ second) = notices first ++ notices second := by
  simp [notices, String.join_append]

def fixCount (fixes : List Fix) (category : Category) : Nat :=
  fixes.countP fun fix => fix.category = category

theorem foldl_record (fixes : List Fix) (tally : Tally) :
    fixes.foldl Tally.record tally = {
      filesScanned := tally.filesScanned
      enumFiles := tally.enumFiles + fixCount fixes .enums
      typeFiles := tally.typeFiles + fixCount fixes .types
      fixes := tally.fixes ++ fixes } := by
  induction fixes generalizing tally with
  | nil => simp [fixCount]
  | cons fix rest ih =>
    rw [List.foldl_cons, ih]
    cases category : fix.category <;>
      simp [Tally.record, fixCount, category, Nat.add_assoc, Nat.add_comm 1]

namespace Progress

def extend (progress : Progress) (fixes : List Fix) (tree : FileTree) : Progress :=
  { progress with
    tree
    tally := fixes.foldl Tally.record progress.tally
    printed := progress.printed ++ notices fixes }

theorem extend_extend (progress : Progress) (first second : List Fix) (middle tree : FileTree) :
    (progress.extend first middle).extend second tree = progress.extend (first ++ second) tree := by
  simp [extend, notices_append, String.append_assoc]

theorem foldl_announce (path : Path) (revisions : List (Category × Option Revision))
    (progress : Progress) :
    revisions.foldl (announce path) progress =
      progress.extend (fixesOf path revisions) progress.tree := by
  induction revisions generalizing progress with
  | nil => simp [extend, fixesOf, notices]
  | cons pass rest ih =>
    obtain ⟨category, revision⟩ := pass
    rw [List.foldl_cons, ih]
    cases revision with
    | none => rfl
    | some revision =>
      simp [announce, extend, fixesOf, notices, String.append_assoc]

@[simp] theorem finish_tree (progress : Progress) : progress.finish.tree = progress.tree := by
  unfold finish
  split <;> rfl

@[simp] theorem finish_tally (progress : Progress) : progress.finish.tally = progress.tally := by
  unfold finish
  split <;> rfl

@[simp] theorem finish_failure (progress : Progress) :
    progress.finish.failure = progress.failure := by
  unfold finish
  split <;> rfl

end Progress

end Migration

-- ---------------------------------------------------------------------------
-- The tree
-- ---------------------------------------------------------------------------

namespace RuleSet

variable {ρ : Type} [PatternLanguage ρ] {rules : RuleSet ρ} {categories : List Category}

theorem iterate_revisedBytes_encode (times : Nat) (text : Text) :
    (rules.revisedBytes categories)^[times] (encode text) =
      encode ((rules.revised categories)^[times] text) := by
  induction times generalizing text with
  | zero => rfl
  | succ times ih => simp only [Function.iterate_succ_apply, revisedBytes_encode, ih]

theorem iterate_revisedBytes_of_error {bytes : List UInt8} {cause : FileError}
    (notText : decode bytes = .error cause) (times : Nat) :
    (rules.revisedBytes categories)^[times] bytes = bytes := by
  have stays : rules.revisedBytes categories bytes = bytes := by simp [revisedBytes, notText]
  exact Function.iterate_fixed stays times

def revisedEntry (rules : RuleSet ρ) (categories : List Category) : Entry → Entry
  | .file bytes => .file (rules.revisedBytes categories bytes)
  | entry => entry

theorem iterate_revisedEntry_file (times : Nat) (bytes : List UInt8) :
    (rules.revisedEntry categories)^[times] (.file bytes) =
      .file ((rules.revisedBytes categories)^[times] bytes) := by
  induction times generalizing bytes with
  | zero => rfl
  | succ times ih => simp only [Function.iterate_succ_apply, revisedEntry, ih]

theorem kind_iterate_revisedEntry (times : Nat) (entry : Entry) :
    ((rules.revisedEntry categories)^[times] entry).kind = entry.kind := by
  induction times generalizing entry with
  | zero => rfl
  | succ times ih =>
    rw [Function.iterate_succ_apply, ih]
    cases entry <;> rfl

end RuleSet

def FileTree.place? (tree : FileTree) (path : Path) : Option Location := (tree.locate path).toOption

theorem FileTree.place?_eq_some_iff {tree : FileTree} {path : Path} {location : Location} :
    tree.place? path = some location ↔ tree.locate path = .ok location := by
  rw [place?]
  cases tree.locate path <;> simp [Except.toOption]

namespace Migration

variable {ρ : Type} [PatternLanguage ρ]

def visits (tree : FileTree) (paths : List Path) (place : Option Location) : Nat :=
  paths.countP fun path => tree.place? path = place

theorem visits_concat (tree : FileTree) (paths : List Path) (path : Path)
    (place : Option Location) :
    visits tree (paths ++ [path]) place =
      visits tree paths place + if tree.place? path = place then 1 else 0 := by
  simp [visits, List.countP_append, List.countP_singleton]

theorem visits_eq_zero_iff {tree : FileTree} {paths : List Path} {place : Option Location} :
    visits tree paths place = 0 ↔ ∀ path ∈ paths, tree.place? path ≠ place := by
  simp [visits, List.countP_eq_zero]

def Apart (tree : FileTree) (paths : List Path) : Prop :=
  paths.Pairwise fun a b => tree.place? a ≠ tree.place? b

theorem visits_eq_one {tree : FileTree} {paths : List Path} {path : Path}
    (apart : Apart tree paths) (mem : path ∈ paths) :
    visits tree paths (tree.place? path) = 1 := by
  obtain ⟨before, after, rfl⟩ := List.append_of_mem mem
  obtain ⟨-, fromPath, across⟩ := List.pairwise_append.mp apart
  have noneBefore : visits tree before (tree.place? path) = 0 :=
    visits_eq_zero_iff.mpr fun other mem => across other mem path List.mem_cons_self
  have noneAfter : visits tree after (tree.place? path) = 0 :=
    visits_eq_zero_iff.mpr fun other mem => ((List.pairwise_cons.mp fromPath).1 other mem).symm
  simp only [visits] at noneBefore noneAfter
  simp [visits, noneBefore, noneAfter]

/-- Each file has been revised as often as one of the paths leads to it, and nothing else has
changed. -/
structure Visited (rules : RuleSet ρ) (categories : List Category) (tree : FileTree)
    (paths : List Path) (after : FileTree) : Prop where
  current : after.current = tree.current
  entries : ∀ location, after.entry? location =
    (rules.revisedEntry categories)^[visits tree paths (some location)] <$> tree.entry? location

namespace Visited

variable {rules : RuleSet ρ} {categories : List Category} {tree after next : FileTree}
  {paths : List Path} {path : Path} {location : Location} {bytes : List UInt8}

theorem nil (rules : RuleSet ρ) (categories : List Category) (tree : FileTree) :
    Visited rules categories tree [] tree := ⟨rfl, fun location => by simp [visits]⟩

theorem alike (h : Visited rules categories tree paths after) : FileTree.Alike tree after := by
  refine ⟨h.current, fun location => ?_⟩
  rw [FileTree.kind?, FileTree.kind?, h.entries]
  cases tree.entry? location <;> simp [RuleSet.kind_iterate_revisedEntry]

theorem entry?_eq_file (h : Visited rules categories tree paths after)
    (found : tree.entry? location = some (.file bytes)) :
    after.entry? location =
      some (.file ((rules.revisedBytes categories)^[visits tree paths (some location)] bytes)) := by
  simp [h.entries, found, RuleSet.iterate_revisedEntry_file]

theorem concat (h : Visited rules categories tree paths after)
    (located : tree.locate path = .ok location)
    (found : tree.entry? location = some (.file bytes))
    (written : FileTree.Rewrites after location (rules.revisedBytes categories
      ((rules.revisedBytes categories)^[visits tree paths (some location)] bytes)) next) :
    Visited rules categories tree (paths ++ [path]) next := by
  have place : tree.place? path = some location := FileTree.place?_eq_some_iff.mpr located
  refine ⟨written.current.trans h.current, fun other => ?_⟩
  rw [written.entries, visits_concat, place]
  by_cases here : other = location
  · subst here
    simp only [if_true, found, Option.map_eq_map, Option.map_some,
      RuleSet.iterate_revisedEntry_file, Function.iterate_succ_apply', RuleSet.revisedEntry]
  · have elsewhere : location ≠ other := fun same => here same.symm
    simp [here, elsewhere, h.entries]

theorem entry?_of_ne (h : Visited rules categories tree paths after)
    (elsewhere : ∀ path ∈ paths, tree.locate path ≠ .ok location) :
    after.entry? location = tree.entry? location := by
  have unvisited : visits tree paths (some location) = 0 :=
    visits_eq_zero_iff.mpr fun path mem => mt FileTree.place?_eq_some_iff.mp (elsewhere path mem)
  simp [h.entries, unvisited]

theorem entry?_of_mem (h : Visited rules categories tree paths after) (apart : Apart tree paths)
    (mem : path ∈ paths) (located : tree.locate path = .ok location)
    (found : tree.entry? location = some (.file bytes)) :
    after.entry? location = some (.file (rules.revisedBytes categories bytes)) := by
  have once := visits_eq_one apart mem
  rw [FileTree.place?_eq_some_iff.mpr located] at once
  rw [h.entry?_eq_file found, once]
  rfl

theorem rewrite (h : Visited rules categories tree paths after)
    (found : after.entry? location = some (.file bytes))
    (written : FileTree.Rewrites after location bytes next) :
    Visited rules categories tree paths next := by
  refine ⟨written.current.trans h.current, fun other => ?_⟩
  rw [written.entries, ← h.entries]
  split
  next here => rw [here, found]
  next => rfl

end Visited

-- ---------------------------------------------------------------------------
-- From file to file
-- ---------------------------------------------------------------------------

def written (options : Options) (paths : List Path) : List Path :=
  if options.dryRun then [] else paths

/-- The fixes of a file that has been revised some times before. -/
def fixesAt (rules : RuleSet ρ) (categories : List Category) (tree : FileTree) (times : Nat)
    (path : Path) : List Fix :=
  match tree.readText path with
  | .ok text => fixesOf path (rules.revisions categories ((rules.revised categories)^[times] text))
  | .error _ => []

def fixesFrom (rules : RuleSet ρ) (options : Options) (tree : FileTree) :
    (before paths : List Path) → List Fix
  | _, [] => []
  | before, path :: rest =>
    fixesAt rules options.categories tree (visits tree (written options before) (tree.place? path))
        path ++
      fixesFrom rules options tree (before ++ [path]) rest

theorem fixesFrom_eq_flatMap (rules : RuleSet ρ) {options : Options} {tree : FileTree}
    {before paths : List Path} (first : options.dryRun = true ∨ Apart tree (before ++ paths)) :
    fixesFrom rules options tree before paths =
      paths.flatMap (fixesAt rules options.categories tree 0) := by
  induction paths generalizing before with
  | nil => rfl
  | cons path rest ih =>
    have unvisited : visits tree (written options before) (tree.place? path) = 0 := by
      rw [visits_eq_zero_iff, written]
      split
      next => simp
      next real =>
        have apart := (List.pairwise_append.mp (first.resolve_left real)).2.2
        exact fun other mem => apart other mem path List.mem_cons_self
    have later : options.dryRun = true ∨ Apart tree (before ++ [path] ++ rest) := by
      simpa using first
    rw [fixesFrom, unvisited, ih later, List.flatMap_cons]

/-- A run does not fail at the file: it is a text, or there is no group to read it. -/
def Passable (options : Options) (tree : FileTree) (path : Path) : Prop :=
  options.categories = [] ∨ tree.readText path ≠ .error .notText

section

variable {rules : RuleSet ρ} {options : Options} {tree : FileTree}
variable {before : List Path} {path : Path}

theorem written_concat_of_dryRun (dry : options.dryRun = true) (before : List Path) (path : Path) :
    written options (before ++ [path]) = written options before := by simp [written, dry]

theorem written_concat (real : options.dryRun = false) (before : List Path) (path : Path) :
    written options (before ++ [path]) = written options before ++ [path] := by
  simp [written, real]

theorem passesOn_iterate (rules : RuleSet ρ) {location : Location} {bytes : List UInt8}
    (located : tree.locate path = .ok location)
    (found : tree.entry? location = some (.file bytes)) (passable : Passable options tree path)
    (times : Nat) :
    (passesOn rules path options.categories
        ((rules.revisedBytes options.categories)^[times] bytes)).failure = none ∧
      fixesOf path (passesOn rules path options.categories
        ((rules.revisedBytes options.categories)^[times] bytes)).revisions =
          fixesAt rules options.categories tree times path := by
  have read := FileTree.readText_eq located found
  rw [fixesAt, read]
  cases isText : decode bytes with
  | ok text =>
    obtain rfl := FileTree.decode_eq_ok_iff.mp isText
    rw [RuleSet.iterate_revisedBytes_encode, passesOn, FileTree.decode_encode]
    split
    next none => simp [none, RuleSet.revisions]
    next => exact ⟨rfl, rfl⟩
  | error cause =>
    obtain rfl := FileTree.decode_eq_error isText
    have none : options.categories = [] := by
      rcases passable with none | text
      · exact none
      · exact absurd (read.trans isText) text
    simp [passesOn, none, fixesOf]

section

variable [PatternLanguage.Lawful ρ]

theorem runFiles_cons {progress : Progress} (holds : tree.HoldsFile path)
    (passable : Passable options tree path)
    (visited : Visited rules options.categories tree (written options before) progress.tree)
    (rest : List Path) :
    ∃ next,
      Visited rules options.categories tree (written options (before ++ [path])) next ∧
      runFiles rules options (path :: rest) progress =
        runFiles rules options rest (progress.extend (fixesAt rules options.categories tree
          (visits tree (written options before) (tree.place? path)) path) next) := by
  obtain ⟨location, bytes, located, found⟩ := holds
  have place : tree.place? path = some location := FileTree.place?_eq_some_iff.mpr located
  have relocated : progress.tree.locate path = .ok location := by
    rw [visited.alike.locate_eq, located]
  have present := visited.entry?_eq_file found
  obtain ⟨next, passes, rewrites⟩ := filePasses_eq rules options relocated present
  refine ⟨next, ?_, ?_⟩
  · cases dry : options.dryRun with
    | true =>
      rw [dry, if_pos rfl] at rewrites
      rw [written_concat_of_dryRun dry]
      exact visited.rewrite present rewrites
    | false =>
      rw [dry, if_neg Bool.false_ne_true] at rewrites
      rw [written_concat dry]
      exact visited.concat located found rewrites
  · obtain ⟨succeeds, fixes⟩ := passesOn_iterate rules located found passable
      (visits tree (written options before) (some location))
    rw [runFiles, passes, place, ← fixes]
    simp only [Progress.foldl_announce, succeeds]
    rfl

theorem runFiles_notText (progress : Progress) (holds : tree.HoldsFile path)
    (ne : options.categories ≠ [])
    (notText : tree.readText path = .error .notText)
    (visited : Visited rules options.categories tree (written options before) progress.tree)
    (rest : List Path) :
    ∃ next,
      Visited rules options.categories tree (written options before) next ∧
      runFiles rules options (path :: rest) progress =
        { progress with tree := next, failure := some (.unreadable path .notText) } := by
  obtain ⟨location, bytes, located, found⟩ := holds
  have relocated : progress.tree.locate path = .ok location := by
    rw [visited.alike.locate_eq, located]
  have noText : decode bytes = .error .notText := by
    rw [← FileTree.readText_eq located found, notText]
  have present := visited.entry?_eq_file found
  rw [RuleSet.iterate_revisedBytes_of_error noText] at present
  obtain ⟨next, passes, rewrites⟩ := filePasses_eq rules options relocated present
  refine ⟨next, ?_, ?_⟩
  · have stays : (if options.dryRun then bytes else rules.revisedBytes options.categories bytes) =
        bytes := by simp [RuleSet.revisedBytes, noText]
    rw [stays] at rewrites
    exact visited.rewrite present rewrites
  · simp [runFiles, passes, passesOn, ne, noText]

/-- What a run does with files at which it does not fail, before it goes on. -/
theorem runFiles_append (progress : Progress) {files : List Path}
    (holds : ∀ path ∈ files, tree.HoldsFile path)
    (passable : ∀ path ∈ files, Passable options tree path)
    (visited : Visited rules options.categories tree (written options before) progress.tree)
    (rest : List Path) :
    ∃ next,
      Visited rules options.categories tree (written options (before ++ files)) next ∧
      runFiles rules options (files ++ rest) progress =
        runFiles rules options rest
          (progress.extend (fixesFrom rules options tree before files) next) := by
  induction files generalizing before progress with
  | nil =>
    refine ⟨progress.tree, by simpa using visited, ?_⟩
    simp [fixesFrom, Progress.extend, notices]
  | cons path more ih =>
    obtain ⟨holdsPath, holdsMore⟩ := List.forall_mem_cons.mp holds
    obtain ⟨passablePath, passableMore⟩ := List.forall_mem_cons.mp passable
    obtain ⟨middle, visited, first⟩ := runFiles_cons holdsPath passablePath visited (more ++ rest)
    obtain ⟨next, visited, second⟩ := ih (progress.extend _ middle) holdsMore passableMore visited
    refine ⟨next, by simpa using visited, ?_⟩
    rw [List.cons_append, first, second, Progress.extend_extend]
    rfl

end

-- ---------------------------------------------------------------------------
-- Whole runs
-- ---------------------------------------------------------------------------

def Options.files (options : Options) (tree : FileTree) : List Path :=
  Discovery.files tree options.discovery options.root

def Run.ending (run : Run) : Option Failure → String
  | none => Report.summary (run.filesFixed .enums) (run.filesFixed .types)
  | some _ => ""

/-- What a run has done when it has come through the paths. -/
structure Outcome (rules : RuleSet ρ) (options : Options) (tree : FileTree) (paths : List Path)
    (failure : Option Failure) (run : Run) : Prop where
  result : run.progress.failure = failure
  scanned : run.filesScanned = (options.files tree).length
  fixes : run.progress.fixes = fixesFrom rules options tree [] paths
  counts : ∀ category, run.filesFixed category = fixCount run.progress.fixes category
  printed : run.progress.printed =
    Report.header (options.files tree).length ++ notices run.progress.fixes ++ run.ending failure
  visited : Visited rules options.categories tree (written options paths) run.progress.tree

def Progress.start (tree : FileTree) (files : List Path) : Progress :=
  { tree, tally := { filesScanned := files.length }, printed := Report.header files.length }

theorem run_progress (rules : RuleSet ρ) (options : Options) (tree : FileTree) :
    (run rules options tree).progress =
      (runFiles rules options (options.files tree)
        (.start tree (options.files tree))).finish := rfl

theorem Outcome.of_progress {paths : List Path} {failure : Option Failure} {run : Run}
    {next : FileTree}
    (visited : Visited rules options.categories tree (written options paths) next)
    (progress : run.progress = Progress.finish
      { (Progress.start tree (options.files tree)).extend
          (fixesFrom rules options tree [] paths) next with failure }) :
    Outcome rules options tree paths failure run := by
  have tally : run.progress.tally = {
      filesScanned := (options.files tree).length
      enumFiles := fixCount (fixesFrom rules options tree [] paths) .enums
      typeFiles := fixCount (fixesFrom rules options tree [] paths) .types
      fixes := fixesFrom rules options tree [] paths } := by
    simp [progress, Progress.extend, Progress.start, foldl_record]
  have fixes : run.progress.fixes = fixesFrom rules options tree [] paths := by
    rw [Progress.fixes, tally]
  refine ⟨by simp [progress], by rw [Run.filesScanned, tally], fixes, fun category => ?_, ?_, ?_⟩
  · rw [fixes]
    cases category <;> rw [Run.filesFixed, tally]
  · simp only [Run.ending, Run.filesFixed, fixes, tally]
    rw [progress]
    cases failure with
    | none => simp [Progress.finish, Progress.extend, Progress.start, foldl_record]
    | some cause => simp [Progress.finish, Progress.extend, Progress.start]
  · simpa [progress, Progress.extend] using visited

theorem holdsFile_of_mem_files (wf : tree.WellFormed) (mem : path ∈ options.files tree) :
    tree.HoldsFile path :=
  Discovery.holdsFile_of_mem_files wf mem

theorem apart_files (wf : tree.WellFormed) (unlinked : tree.Unlinked) :
    Apart tree (options.files tree) := by
  refine (Discovery.pairwise_locate_ne wf unlinked).imp_of_mem
    fun {left right} memLeft _ ne same => ?_
  obtain ⟨location, -, located, -⟩ := holdsFile_of_mem_files wf memLeft
  have place := FileTree.place?_eq_some_iff.mpr located
  rw [place] at same
  exact ne (located.trans (FileTree.place?_eq_some_iff.mp same.symm).symm)

theorem visited_start (rules : RuleSet ρ) (options : Options) (tree : FileTree) :
    Visited rules options.categories tree (written options [])
      (Progress.start tree (options.files tree)).tree := by
  simpa [written] using .nil rules options.categories tree

variable [PatternLanguage.Lawful ρ]

theorem run_completed (rules : RuleSet ρ) (wf : tree.WellFormed)
    (passable : ∀ path ∈ options.files tree, Passable options tree path) :
    Outcome rules options tree (options.files tree) none (run rules options tree) := by
  obtain ⟨next, visited, ran⟩ := runFiles_append _ (fun _ => holdsFile_of_mem_files wf) passable
    (visited_start rules options tree) []
  refine .of_progress visited ?_
  rw [List.append_nil] at ran
  rw [run_progress, ran]
  rfl

theorem run_stopped (rules : RuleSet ρ) (wf : tree.WellFormed) {after : List Path}
    (found : options.files tree = before ++ path :: after)
    (passable : ∀ earlier ∈ before, Passable options tree earlier)
    (ne : options.categories ≠ []) (notText : tree.readText path = .error .notText) :
    Outcome rules options tree before (some (.unreadable path .notText))
      (run rules options tree) := by
  have holds : ∀ file ∈ before ++ path :: after, tree.HoldsFile file :=
    fun _ mem => holdsFile_of_mem_files wf (found ▸ mem)
  rw [List.forall_mem_append, List.forall_mem_cons] at holds
  obtain ⟨middle, visited, ran⟩ := runFiles_append _ holds.1 passable
    (visited_start rules options tree) (path :: after)
  obtain ⟨next, visited, stopped⟩ := runFiles_notText
    ((Progress.start tree (options.files tree)).extend (fixesFrom rules options tree [] before)
      middle) holds.2.1 ne notText visited after
  refine .of_progress visited ?_
  rw [← found] at ran
  rw [run_progress, ran, stopped]
  rfl

theorem passable_or_first (options : Options) (tree : FileTree) (files : List Path) :
    (∀ path ∈ files, Passable options tree path) ∨
    ∃ before path after, files = before ++ path :: after ∧
      (∀ earlier ∈ before, Passable options tree earlier) ∧
      options.categories ≠ [] ∧ tree.readText path = .error .notText := by
  induction files with
  | nil => exact .inl (by simp)
  | cons path rest ih =>
    by_cases passable : Passable options tree path
    · rcases ih with all | ⟨before, first, after, rfl, earlier, stops⟩
      · exact .inl (List.forall_mem_cons.mpr ⟨passable, all⟩)
      · exact .inr ⟨path :: before, first, after, rfl, List.forall_mem_cons.mpr ⟨passable, earlier⟩,
          stops⟩
    · exact .inr ⟨[], path, rest, rfl, by simp, by simpa [Passable] using passable⟩

end

end Migration

end Codemod
