import Codemod.Proofs.Paths
import Codemod.Settings.Search

/-!
# A search gives what loading would give

A search reads each file in the form that it looks for, while a file that is
named is read in the form that its name tells. The two never differ
(`ofPath_join`), so a search gives the settings of the first file that can be
loaded (`Selects`). Among the files that it passes over it warns of those that
are there and no settings can be made of; a manifest that has no section is none
of them.
-/

namespace Codemod

theorem FileTree.has_of_readText {tree : FileTree} {path : Path} {text : Text}
    (read : tree.readText path = .ok text) : tree.has path = true := by
  rw [has]
  cases located : tree.locate path with
  | ok location => rfl
  | error cause => simp [readText, readBytes, located, bind, Except.bind] at read

namespace Settings

variable {tree : FileTree} {path : Path} {settings : Settings} {cause : SettingsError}

-- ---------------------------------------------------------------------------
-- Loading one file
-- ---------------------------------------------------------------------------

theorem ofPath_join (directory : Path) (form : Form) :
    Form.ofPath (directory.join form.fileName) = form := by
  have isName : FileTree.IsName form.fileName := by cases form <;> decide
  rw [Form.ofPath, directory.fileName?_join isName]
  cases form <;> decide

theorem read_eq_error {form : Form} {text : Text} (failed : form.read text = .error cause) :
    cause = .malformed ∨ cause = .noSection := by
  have elim {settings? : Option Settings}
      (failed : settings?.elim (throw .malformed) pure = Except.error cause) :
      cause = .malformed := by
    cases settings? with
    | none => exact (Except.error.inj failed).symm
    | some settings => cases failed
  cases form with
  | ownFile =>
    simp only [Form.read, ofToml] at failed
    split at failed
    · split at failed
      · cases failed
      · exact .inl (elim failed)
    · exact .inl (Except.error.inj failed).symm
  | manifest =>
    simp only [Form.read, ofManifest] at failed
    split at failed
    · exact .inl (Except.error.inj failed).symm
    · split at failed
      · exact .inr (Except.error.inj failed).symm
      · exact .inl (elim failed)
    · exact .inr (Except.error.inj failed).symm

def isUnusable (tree : FileTree) (path : Path) : Bool :=
  tree.has path &&
    match tree.readText path with
    | .error _ => true
    | .ok text => (Form.ofPath path).read text = .error .malformed

theorem has_of_load (loaded : load tree path = .ok settings) : tree.has path = true := by
  rw [load, loadAs] at loaded
  split at loaded
  next => cases loaded
  next read => exact FileTree.has_of_readText read

theorem isUnusable_of_load (there : tree.has path = true) (failed : load tree path = .error cause) :
    isUnusable tree path = decide (cause ≠ .noSection) := by
  rw [load, loadAs] at failed
  rw [isUnusable, there, Bool.true_and]
  cases read : tree.readText path with
  | error reason =>
    rw [read] at failed
    obtain rfl := Except.error.inj failed
    rfl
  | ok text =>
    rw [read] at failed
    simp only at failed ⊢
    rw [failed]
    rcases read_eq_error failed with rfl | rfl <;> decide

theorem isUnusable_of_noSection {text : Text} {document : Document}
    (manifest : path.fileName? = some manifestName.toList) (read : tree.readText path = .ok text)
    (parsed : Document.ofJson? text = some document)
    (none : ∀ fields, document = .table fields → fields.lookup sectionName = none) :
    isUnusable tree path = false := by
  have sectionless : ofManifest text = .error .noSection := by
    rw [ofManifest, parsed]
    cases document with
    | table fields => simp [none fields rfl, throw, throwThe, MonadExceptOf.throw]
    | _ => rfl
  have form : Form.ofPath path = .manifest := by rw [Form.ofPath, if_pos manifest]
  have failed : load tree path = .error .noSection := by
    rw [load, loadAs, read, form]
    exact sectionless
  rw [isUnusable_of_load (FileTree.has_of_readText read) failed]
  rfl

-- ---------------------------------------------------------------------------
-- One file after the other
-- ---------------------------------------------------------------------------

/-- The warnings name the unusable files among the paths, in their order and with the cause. -/
structure Warns (tree : FileTree) (paths : List Path) (warnings : List SettingsWarning) : Prop where
  names : warnings.map (·.path) = paths.filter (isUnusable tree)
  causes : ∀ warning ∈ warnings, load tree warning.path = .error warning.cause

/-- The settings of the first file that can be loaded, with warnings of those before it. -/
inductive Selects (tree : FileTree) : List Path → Found → Prop
  | first {before after : List Path} {path : Path} {settings : Settings}
      {warnings : List SettingsWarning}
      (_ : ∀ other ∈ before, ∃ cause, load tree other = .error cause)
      (_ : load tree path = .ok settings) (_ : Warns tree before warnings) :
      Selects tree (before ++ path :: after) { settings, path := some path, warnings }
  | none {paths : List Path} {warnings : List SettingsWarning}
      (_ : ∀ path ∈ paths, ∃ cause, load tree path = .error cause)
      (_ : Warns tree paths warnings) : Selects tree paths { warnings }

variable {paths : List Path} {warnings : List SettingsWarning} {found : Found}

theorem Warns.pass (warns : Warns tree paths warnings) (usable : isUnusable tree path = false) :
    Warns tree (path :: paths) warnings := by
  refine ⟨?_, warns.causes⟩
  rw [warns.names, List.filter_cons_of_neg (by simp [usable])]

theorem Warns.warn (warns : Warns tree paths warnings) (unusable : isUnusable tree path = true)
    (failed : load tree path = .error cause) :
    Warns tree (path :: paths) (⟨path, cause⟩ :: warnings) := by
  refine ⟨?_, List.forall_mem_cons.mpr ⟨failed, warns.causes⟩⟩
  rw [List.filter_cons_of_pos unusable, List.map_cons, warns.names]

theorem Selects.cons (selects : Selects tree paths found) (failed : load tree path = .error cause)
    (warns : ∀ {others}, Warns tree others found.warnings → Warns tree (path :: others) warnings) :
    Selects tree (path :: paths) { found with warnings } := by
  cases selects with
  | first failures loaded passed =>
    have failures := List.forall_mem_cons.mpr ⟨⟨cause, failed⟩, failures⟩
    rw [← List.cons_append]
    exact .first failures loaded (warns passed)
  | none failures passed =>
    exact .none (List.forall_mem_cons.mpr ⟨⟨cause, failed⟩, failures⟩) (warns passed)

theorem firstOf_selects {candidates : List Candidate}
    (named : ∀ candidate ∈ candidates, Form.ofPath candidate.path = candidate.form) :
    Selects tree (candidates.map (·.path)) (firstOf tree candidates) := by
  induction candidates with
  | nil => exact .none (by simp) ⟨rfl, by simp⟩
  | cons candidate rest ih =>
    obtain ⟨form, path⟩ := candidate
    obtain ⟨same, named⟩ := List.forall_mem_cons.mp named
    have rest := ih named
    have reads : loadAs tree form path = load tree path := by rw [load, same]
    rw [List.map_cons, firstOf, reads]
    cases loaded : load tree path with
    | ok settings =>
      rw [has_of_load loaded]
      show Selects tree ([] ++ path :: _) _
      exact .first (by simp) loaded ⟨rfl, by simp⟩
    | error cause =>
      split
      next missing =>
        have usable : isUnusable tree path = false := by simp_all [isUnusable]
        exact rest.cons loaded (·.pass usable)
      next there =>
        have unusable := isUnusable_of_load (by simpa using there) loaded
        cases cause with
        | noSection => exact rest.cons loaded (·.pass unusable)
        | malformed => exact rest.cons loaded (·.warn unusable loaded)
        | unreadable reason => exact rest.cons loaded (·.warn unusable loaded)

-- ---------------------------------------------------------------------------
-- A whole search
-- ---------------------------------------------------------------------------

theorem startDirectory_spec (tree : FileTree) (start : Path) :
    if tree.isFile start then start.parent? = some (startDirectory tree start)
    else startDirectory tree start = start := by
  rw [startDirectory]
  split
  next file =>
    obtain ⟨above, up⟩ := FileTree.exists_parent_of_isFile file
    rw [up, Option.getD_some]
  next => rfl

/-- A search climbs from the start, or from the directory of a file, and selects among the two
files of each directory what loading them gives. -/
theorem search_selects (tree : FileTree) (start : Path) :
    ∃ directory directories,
      (if tree.isFile start then start.parent? = some directory else directory = start) ∧
      directory.Climb directories ∧
      Selects tree
        (directories.flatMap fun directory =>
          [directory.join fileName, directory.join manifestName])
        (search tree start) ∧
      ∀ path text document, path.fileName? = some manifestName.toList →
        tree.readText path = .ok text → Document.ofJson? text = some document →
        (∀ fields, document = .table fields → fields.lookup sectionName = none) →
        isUnusable tree path = false := by
  refine ⟨startDirectory tree start, (startDirectory tree start).ancestors,
    startDirectory_spec tree start, Path.climb_ancestors _, ?_, ?_⟩
  · have named : ∀ candidate ∈ (startDirectory tree start).ancestors.flatMap candidatesIn,
        Form.ofPath candidate.path = candidate.form := by
      intro candidate mem
      obtain ⟨directory, -, mem⟩ := List.mem_flatMap.mp mem
      obtain ⟨form, -, rfl⟩ := List.mem_map.mp mem
      exact ofPath_join directory form
    have selects : Selects tree _ (search tree start) := firstOf_selects named
    rwa [List.map_flatMap] at selects
  · intro path text document manifest read parsed none
    exact isUnusable_of_noSection manifest read parsed none

def nestedTree : FileTree where
  entries := [(["app"], .directory),
    (["app", "package.json"],
      .file (FileTree.encode "\x7b\"prismafix\": \x7b\"root\": \"src\"\x7d\x7d".toList)),
    (["app", "src"], .directory),
    (["app", "src", ".prismafix.toml"], .file (FileTree.encode "root".toList)),
    (["app", "src", "package.json"], .file (FileTree.encode "\x7b\x7d".toList)),
    (["app", "src", "order.ts"], .file [])]

example : search nestedTree "/app/src/order.ts" =
    { settings := { root := some "src" }
      path := some "/app/package.json"
      warnings := [⟨"/app/src/.prismafix.toml", .malformed⟩] } := by decide +kernel

end Settings

end Codemod
