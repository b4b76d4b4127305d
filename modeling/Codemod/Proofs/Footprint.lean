import Codemod.Command
import Codemod.Proofs.RealRun
import Codemod.Proofs.WrittenRules

/-!
# What the command may change

A file is written only where it has just been read. So a run creates and
removes nothing, and only files that its paths lead to can differ afterwards
(`Confined`), wherever links lead and however the run ends.

The command decides which paths these are, and when there is nothing to write
at all (`Idle`).
-/

namespace Codemod

theorem bind_eq_ok {ε α β : Type} {x : Except ε α} {f : α → Except ε β} {b : β} :
    x >>= f = .ok b ↔ ∃ a, x = .ok a ∧ f a = .ok b := by
  cases x <;> simp [bind, Except.bind]

theorem mapError_eq_ok {ε ε' α : Type} {x : Except ε α} {f : ε → ε'} {a : α} :
    x.mapError f = .ok a ↔ x = .ok a := by
  cases x <;> simp [Except.mapError]

-- ---------------------------------------------------------------------------
-- Files
-- ---------------------------------------------------------------------------

namespace FileTree

theorem holdsFile_of_readText {tree : FileTree} {path : Path} {text : Text}
    (h : tree.readText path = .ok text) : tree.HoldsFile path := by
  obtain ⟨bytes, read, -⟩ := bind_eq_ok.mp h
  obtain ⟨location, located, present⟩ := bind_eq_ok.mp read
  refine ⟨location, bytes, located, ?_⟩
  rw [readAt] at present
  split at present <;> cases present
  assumption

end FileTree

namespace Migration

variable {ρ : Type} [PatternLanguage ρ] {rules : RuleSet ρ} {options : Options}
  {tree middle after : FileTree} {paths more : List Path} {path : Path}

/-- Names, kinds and links are as they were, and so are all files but those that the paths lead
to. -/
structure Confined (paths : List Path) (tree after : FileTree) : Prop where
  alike : tree.Alike after
  unchanged : UnchangedBut paths tree after

namespace Confined

theorem refl (paths : List Path) (tree : FileTree) : Confined paths tree tree :=
  ⟨.refl tree, fun _ _ => rfl⟩

theorem mono (h : Confined paths tree after) (sub : paths ⊆ more) : Confined more tree after :=
  ⟨h.alike, fun location elsewhere =>
    h.unchanged location fun path mem => elsewhere path (sub mem)⟩

theorem trans (first : Confined paths tree middle) (second : Confined paths middle after) :
    Confined paths tree after := by
  refine ⟨first.alike.trans second.alike, fun location elsewhere => ?_⟩
  -- the second tree is the first but for bytes, so the paths lead to the same places in it
  have elsewhere' : ∀ path ∈ paths, middle.locate path ≠ .ok location := fun path mem => by
    rw [first.alike.locate_eq]
    exact elsewhere path mem
  exact (second.unchanged location elsewhere').trans (first.unchanged location elsewhere)

end Confined

theorem writeText_confined {text : Text} (holds : tree.HoldsFile path)
    (written : tree.writeText path text = .ok after) : Confined [path] tree after := by
  obtain ⟨location, bytes, located, found⟩ := holds
  cases (FileTree.writeText_eq_ok located found text).symm.trans written
  have rewrites := FileTree.Rewrites.overwrite found (FileTree.encode text)
  refine ⟨rewrites.alike found, fun other elsewhere => ?_⟩
  have ne : other ≠ location := by
    rintro rfl
    exact elsewhere path List.mem_cons_self located
  rw [rewrites.entries, if_neg ne]

theorem fixFile_confined {group : RuleGroup ρ} {revision : Option Revision}
    (fixed : fixFile tree path group = .ok (revision, after)) : Confined [path] tree after := by
  obtain ⟨source, read, fixed⟩ := bind_eq_ok.mp fixed
  have holds := FileTree.holdsFile_of_readText (mapError_eq_ok.mp read)
  obtain ⟨made, -, fixed⟩ := bind_eq_ok.mp fixed
  cases made with
  | none =>
    cases fixed
    exact .refl _ _
  | some made =>
    obtain ⟨next, written, fixed⟩ := bind_eq_ok.mp fixed
    cases fixed
    exact writeText_confined holds (mapError_eq_ok.mp written)

theorem fixPasses_confined (rules : RuleSet ρ) (path : Path) (categories : List Category)
    (tree : FileTree) : Confined [path] tree (fixPasses rules path categories tree).2 := by
  induction categories generalizing tree with
  | nil => exact .refl _ _
  | cons category rest ih =>
    rw [fixPasses]
    split
    next => exact .refl _ _
    next fixed => exact (fixFile_confined fixed).trans (ih _)

theorem filePasses_confined (rules : RuleSet ρ) (options : Options) (tree : FileTree)
    (path : Path) : Confined [path] tree (filePasses rules options tree path).2 := by
  rw [filePasses]
  split
  · exact .refl _ _
  · exact fixPasses_confined rules path options.categories tree

theorem filePasses_of_dryRun (dry : options.dryRun = true) (tree : FileTree) (path : Path) :
    (filePasses rules options tree path).2 = tree := by
  rw [filePasses, if_pos dry]

theorem runFiles_tree_cons (rules : RuleSet ρ) (options : Options) (path : Path) (rest : List Path)
    (progress : Progress) :
    (runFiles rules options (path :: rest) progress).tree =
        (filePasses rules options progress.tree path).2 ∨
      ∃ next, next.tree = (filePasses rules options progress.tree path).2 ∧
        runFiles rules options (path :: rest) progress = runFiles rules options rest next := by
  rw [runFiles]
  simp only [Progress.foldl_announce]
  split
  · exact .inl rfl
  · exact .inr ⟨_, rfl, rfl⟩

theorem runFiles_confined (rules : RuleSet ρ) (options : Options) (paths : List Path)
    (progress : Progress) :
    Confined paths progress.tree (runFiles rules options paths progress).tree := by
  induction paths generalizing progress with
  | nil => exact .refl _ _
  | cons path rest ih =>
    have first : Confined (path :: rest) progress.tree
        (filePasses rules options progress.tree path).2 :=
      (filePasses_confined rules options progress.tree path).mono (by simp)
    rcases runFiles_tree_cons rules options path rest progress with ends | ⟨next, tree, goesOn⟩
    · rw [ends]
      exact first
    · rw [goesOn]
      rw [← tree] at first
      exact first.trans ((ih next).mono (List.subset_cons_self path rest))

theorem runFiles_of_dryRun (dry : options.dryRun = true) (paths : List Path)
    (progress : Progress) :
    (runFiles rules options paths progress).tree = progress.tree := by
  induction paths generalizing progress with
  | nil => rfl
  | cons path rest ih =>
    rcases runFiles_tree_cons rules options path rest progress with ends | ⟨next, tree, goesOn⟩
    · rw [ends, filePasses_of_dryRun dry]
    · rw [goesOn, ih, tree, filePasses_of_dryRun dry]

theorem run_confined (rules : RuleSet ρ) (options : Options) (tree : FileTree) :
    Confined (options.files tree) tree (run rules options tree).progress.tree := by
  rw [run_progress, Progress.finish_tree]
  exact runFiles_confined rules options _ (.start tree (options.files tree))

theorem run_of_dryRun (dry : options.dryRun = true) (tree : FileTree) :
    (run rules options tree).progress.tree = tree := by
  rw [run_progress, Progress.finish_tree, runFiles_of_dryRun dry]
  rfl

end Migration

-- ---------------------------------------------------------------------------
-- Arguments
-- ---------------------------------------------------------------------------

namespace Arguments

/-- The arguments before two dashes alone; after them nothing is an option. -/
def unseparated (arguments : List String) : List String := arguments.takeWhile (· ≠ "--")

theorem Spelling.eq_of_separator {argument : String} (h : ofArgument argument = separator) :
    argument = "--" := by
  unfold ofArgument at h
  split at h
  next dashes => exact String.toList_inj.mp dashes
  next => split at h <;> cases h
  next => cases h
  next => cases h

theorem Spelling.eq_of_long {argument name : String} (h : ofArgument argument = long name none) :
    argument = "--" ++ name := by
  unfold ofArgument at h
  split at h
  next => cases h
  next rest _ dashes =>
    split at h
    next all =>
      cases h
      have whole := List.takeWhile_append_dropWhile (p := (· != '=')) (l := rest)
      rw [all, List.append_nil] at whole
      simp [← String.toList_inj, dashes, whole]
    next => cases h
  next => cases h
  next => cases h

theorem Meaning.eq_of_dryRun {name : String} (h : ofLong? name = some (.switch .dryRun)) :
    name = "dry-run" := by
  unfold ofLong? at h
  split at h <;> first | rfl | cases h

theorem store_dryRun {arguments next : Arguments} {slot : Slot} {value : Option String}
    (stored : arguments.store slot value = .ok next) : next.dryRun = arguments.dryRun := by
  unfold store at stored
  repeat' split at stored
  all_goals cases stored <;> rfl

theorem turnOn_dryRun {arguments next : Arguments} {switch : Switch} {long : Bool}
    (on : arguments.turnOn switch long = .ok next) :
    next.dryRun = (arguments.dryRun || switch = .dryRun) := by
  cases switch with
  | help => cases on
  | version => cases on
  | _ =>
    simp only [turnOn] at on
    split at on <;> cases on
    simp

namespace Progress

/-- On the way from one to the other, a dry run was asked for or was not. -/
structure Heard (asked : Bool) (progress next : Progress) : Prop where
  separated : next.separated = progress.separated
  dryRun : next.arguments.dryRun = (progress.arguments.dryRun || asked)

variable {progress middle next : Progress} {argument text : String}

theorem Heard.none (progress : Progress) : Heard false progress progress :=
  ⟨rfl, (Bool.or_false _).symm⟩

theorem Heard.trans {first second : Bool} (h : Heard first progress middle)
    (h' : Heard second middle next) : Heard (first || second) progress next :=
  ⟨h'.separated.trans h.separated, by rw [h'.dryRun, h.dryRun, Bool.or_assoc]⟩

theorem heard_settle (h : progress.settle = .ok next) : Heard false progress next := by
  unfold settle at h
  split at h
  · cases h
    exact .none _
  · split at h
    next => cases h
    next stored =>
      cases h
      exact ⟨rfl, by simp [store_dryRun stored]⟩

theorem heard_positional (h : progress.positional text = .ok next) : Heard false progress next := by
  unfold positional at h
  split at h
  · cases h
  · obtain ⟨settled, done, h⟩ := bind_eq_ok.mp h
    cases h
    have heard := heard_settle done
    exact ⟨heard.separated, heard.dryRun⟩

theorem heard_plain (h : progress.plain text = .ok next) : Heard false progress next := by
  unfold plain at h
  split at h
  · cases h
    exact ⟨rfl, by simp⟩
  · exact heard_positional h

theorem heard_switch {switch : Switch} {long : Bool} (h : progress.switch switch long = .ok next) :
    Heard (switch = .dryRun) progress next := by
  obtain ⟨settled, done, h⟩ := bind_eq_ok.mp h
  obtain ⟨arguments, on, h⟩ := bind_eq_ok.mp h
  cases h
  have heard := heard_settle done
  exact ⟨heard.separated, by simp [turnOn_dryRun on, heard.dryRun]⟩

theorem heard_letter {letter : Char} (h : progress.letter letter = .ok next) :
    Heard false progress next := by
  unfold Progress.letter at h
  split at h
  next => cases h
  next switch found =>
    have other : switch ≠ .dryRun := by
      rintro rfl
      unfold Switch.ofLetter? at found
      split at found <;> cases found
    simpa [other] using heard_switch h

theorem heard_letters {letters : List Char}
    (h : letters.foldlM Progress.letter progress = .ok next) : Heard false progress next := by
  induction letters generalizing progress with
  | nil =>
    cases h
    exact .none _
  | cons letter rest ih =>
    rw [List.foldlM_cons] at h
    obtain ⟨middle, first, h⟩ := bind_eq_ok.mp h
    exact (heard_letter first).trans (ih h)

theorem heard_long {name : String} {value : Option String}
    (h : progress.long name value = .ok next) :
    Heard (name = "dry-run" ∧ value = none) progress next := by
  unfold long at h
  split at h
  next => cases h
  next switch meaning =>
    have same : (switch = .dryRun) ↔ name = "dry-run" := by
      constructor
      · rintro rfl
        exact Meaning.eq_of_dryRun meaning
      · rintro rfl
        cases meaning
        rfl
    simpa [same] using heard_switch h
  next => cases h
  next slot meaning =>
    have other : name ≠ "dry-run" := by rintro rfl; cases meaning
    obtain ⟨settled, done, h⟩ := bind_eq_ok.mp h
    cases h
    have heard := heard_settle done
    exact ⟨heard.separated, by simp [heard.dryRun, other]⟩
  next slot value meaning =>
    obtain ⟨settled, done, h⟩ := bind_eq_ok.mp h
    have heard := heard_settle done
    have heard' := heard_settle h
    exact ⟨heard'.separated.trans heard.separated, by simp [heard'.dryRun, heard.dryRun]⟩

theorem heard_other (dashes : argument ≠ "--") (other : argument ≠ "--dry-run")
    (h : progress.read argument = .ok next) : Heard false progress next := by
  unfold read at h
  split at h
  next => exact heard_positional h
  next =>
    split at h
    next spelled => exact absurd (Spelling.eq_of_separator spelled) dashes
    next name value spelled =>
      have notAsked : ¬ (name = "dry-run" ∧ value = none) := by
        rintro ⟨rfl, rfl⟩
        exact other (Spelling.eq_of_long spelled)
      have heard := heard_long h
      rwa [decide_eq_false notAsked] at heard
    next => exact heard_letters h
    next => exact heard_plain h

theorem read_ok (h : progress.read argument = .ok next) :
    next.separated = (progress.separated || argument = "--") ∧
    next.arguments.dryRun =
      (progress.arguments.dryRun || (!progress.separated && argument = "--dry-run")) := by
  by_cases separated : progress.separated = true
  · rw [read, if_pos separated] at h
    have heard := heard_positional h
    simp [heard.separated, heard.dryRun, separated]
  · by_cases dashes : argument = "--"
    · subst dashes
      rw [read, if_neg separated] at h
      cases h
      simp
    · by_cases asked : argument = "--dry-run"
      · subst asked
        rw [read, if_neg separated] at h
        have heard : Heard true progress next := heard_switch h
        simp [heard.separated, heard.dryRun, separated]
      · have heard := heard_other dashes asked h
        simp [heard.separated, heard.dryRun, dashes, asked]

theorem dryRun_foldlM_read {arguments : List String}
    (h : arguments.foldlM read progress = .ok next) :
    next.arguments.dryRun = true ↔ progress.arguments.dryRun = true ∨
      progress.separated = false ∧ "--dry-run" ∈ unseparated arguments := by
  induction arguments generalizing progress with
  | nil =>
    cases h
    simp [unseparated]
  | cons argument rest ih =>
    rw [List.foldlM_cons] at h
    obtain ⟨middle, first, h⟩ := bind_eq_ok.mp h
    obtain ⟨separated, dryRun⟩ := read_ok first
    rw [ih h, separated, dryRun]
    by_cases dashes : argument = "--"
    · simp [unseparated, dashes]
    · have kept : unseparated (argument :: rest) = argument :: unseparated rest := by
        simp [unseparated, dashes]
      rw [kept, List.mem_cons, eq_comm (a := "--dry-run")]
      simp only [dashes, decide_false, Bool.or_false, Bool.or_eq_true, Bool.and_eq_true,
        Bool.not_eq_true', decide_eq_true_eq]
      tauto

end Progress

theorem dryRun_iff_mem {arguments : List String} {result : Arguments}
    (h : read arguments = .ok result) :
    result.dryRun = true ↔ "--dry-run" ∈ unseparated arguments := by
  obtain ⟨progress, folded, h⟩ := bind_eq_ok.mp h
  obtain ⟨settled, done, h⟩ := bind_eq_ok.mp h
  cases h
  rw [(Progress.heard_settle done).dryRun, Bool.or_false, Progress.dryRun_foldlM_read folded]
  simp

end Arguments

-- ---------------------------------------------------------------------------
-- The command
-- ---------------------------------------------------------------------------

namespace Command

variable {tree : FileTree} {arguments : List String} {location : Location}

def rootOf (arguments : Arguments) (settings : Settings) : Path :=
  match arguments.path, settings.root with
  | some path, _ => path
  | none, some path => path
  | none, none => "src/app/api"

/-- Extensions among the arguments replace those that are set; folders to skip are added to
them. -/
def filtersOf (arguments : Arguments) (settings : Settings) : Discovery.Options where
  extensions := List.map bareExtension <|
    match arguments.extensions, settings.extensions with
    | [], none => ["ts"]
    | [], some extensions => extensions
    | extensions, _ => extensions
  excludeFolders :=
    match settings.excludeFolders with
    | none => arguments.excludeFolders
    | some folders => folders ++ arguments.excludeFolders
  respectGitignore := arguments.respectGitignore = true ∨ settings.respectGitignore = some true

theorem files_options (tree : FileTree) (arguments : Arguments) (settings : Settings) :
    (options arguments settings).files tree =
      Discovery.files tree (filtersOf arguments settings) (rootOf arguments settings) := by
  have root : (options arguments settings).root = rootOf arguments settings := by
    unfold options rootOf
    cases arguments.path <;> cases settings.root <;> rfl
  have filters : (options arguments settings).discovery = filtersOf arguments settings := by
    simp only [options, filtersOf, Discovery.Options.mk.injEq]
    refine ⟨?_, ?_, ?_⟩
    · cases arguments.extensions <;> cases settings.extensions <;> rfl
    · cases settings.excludeFolders <;> rfl
    · cases arguments.respectGitignore <;> cases settings.respectGitignore <;> simp
  rw [Migration.Options.files, root, filters]

def Sought (tree : FileTree) (arguments : List String) (location : Location) : Prop :=
  ∃ parsed found path, Arguments.read arguments = .ok parsed ∧ settings tree parsed = .ok found ∧
    path ∈ Discovery.files tree (filtersOf parsed found.settings)
      (rootOf parsed found.settings) ∧
    tree.locate path = .ok location

/-- The command has nothing to write. -/
inductive Idle (tree : FileTree) (arguments : List String) : Prop
  | stopped {stop : Arguments.Stop} (stops : Arguments.read arguments = .error stop)
  | dryRun (asked : "--dry-run" ∈ Arguments.unseparated arguments)
  | unusable {parsed : Arguments} {path : Path} {cause : SettingsError}
    (reads : Arguments.read arguments = .ok parsed) (named : parsed.config = some path)
    (fails : Settings.load tree path = .error cause)
  | refused {parsed : Arguments} {found : Settings.Found} {cause : RuleError}
    (reads : Arguments.read arguments = .ok parsed) (sets : settings tree parsed = .ok found)
    (fails : found.settings.table = .error cause)

theorem run_tree_of_accepted {parsed : Arguments} {found : Settings.Found} {table : EnumTable}
    (reads : Arguments.read arguments = .ok parsed) (sets : settings tree parsed = .ok found)
    (accepted : found.settings.table = .ok table) (color : Bool) :
    (run tree color arguments).tree =
      (Migration.run (.ofTable table) (options parsed found.settings) tree).progress.tree := by
  obtain ⟨rules, isRead, -⟩ := RuleSet.read_eq_ok table
  rw [← Migration.run_of_read isRead]
  simp [run, reads, migrate, sets, accepted, isRead, bind, Except.bind]

theorem run_tree_cases (tree : FileTree) (color : Bool) (arguments : List String) :
    (run tree color arguments).tree = tree ∨
    ∃ parsed found table, Arguments.read arguments = .ok parsed ∧
      settings tree parsed = .ok found ∧ found.settings.table = .ok table ∧
      (run tree color arguments).tree =
        (Migration.run (.ofTable table) (options parsed found.settings) tree).progress.tree := by
  cases reads : Arguments.read arguments with
  | error stop => cases stop <;> simp [run, reads]
  | ok parsed =>
    cases sets : settings tree parsed with
    | error cause => simp [run, reads, migrate, sets]
    | ok found =>
      cases accepted : found.settings.table with
      | error cause => simp [run, reads, migrate, sets, accepted, bind, Except.bind]
      | ok table =>
        exact .inr ⟨parsed, found, table, rfl, sets, accepted,
          run_tree_of_accepted reads sets accepted color⟩

theorem run_of_idle (idle : Idle tree arguments) (color : Bool) :
    (run tree color arguments).tree = tree := by
  rcases run_tree_cases tree color arguments with
    still | ⟨parsed, found, table, reads, sets, accepted, ran⟩
  · exact still
  · cases idle with
    | stopped stops => simp [reads] at stops
    | dryRun asked =>
      have dry : (options parsed found.settings).dryRun = true :=
        (Arguments.dryRun_iff_mem reads).mpr asked
      rw [ran, Migration.run_of_dryRun dry]
    | unusable reads' named fails =>
      cases reads.symm.trans reads'
      simp [settings, named, fails] at sets
    | refused reads' sets' fails =>
      cases reads.symm.trans reads'
      cases sets.symm.trans sets'
      cases accepted.symm.trans fails

theorem run_alike (tree : FileTree) (color : Bool) (arguments : List String) :
    tree.Alike (run tree color arguments).tree := by
  rcases run_tree_cases tree color arguments with still | ⟨parsed, found, table, -, -, -, ran⟩
  · rw [still]
    exact .refl tree
  · rw [ran]
    exact (Migration.run_confined _ _ tree).alike

theorem sought_of_ne {color : Bool}
    (differs : (run tree color arguments).tree.entry? location ≠ tree.entry? location) :
    Sought tree arguments location := by
  rcases run_tree_cases tree color arguments with
    still | ⟨parsed, found, table, reads, sets, -, ran⟩
  · rw [still] at differs
    exact absurd rfl differs
  · rw [ran] at differs
    by_contra elsewhere
    refine differs ((Migration.run_confined _ _ tree).unchanged location ?_)
    intro path mem located
    rw [files_options] at mem
    exact elsewhere ⟨parsed, found, path, reads, sets, mem, located⟩

/-- The command creates and removes nothing. What differs afterwards are files that it looked for,
and nothing differs if it has nothing to write. -/
theorem run_footprint (tree : FileTree) (color : Bool) (arguments : List String) :
    tree.Alike (run tree color arguments).tree ∧
    (∀ location, (run tree color arguments).tree.entry? location ≠ tree.entry? location →
      Sought tree arguments location ∧
      ∃ old new, tree.entry? location = some (.file old) ∧
        (run tree color arguments).tree.entry? location = some (.file new)) ∧
    (Idle tree arguments → (run tree color arguments).tree = tree) := by
  have alike := run_alike tree color arguments
  refine ⟨alike, fun location differs => ⟨sought_of_ne differs, ?_⟩,
    fun idle => run_of_idle idle color⟩
  exact (alike.eq_or_files location).resolve_left differs

def outsideTree : FileTree where
  entries := [(["app"], .directory), (["app", "pages"], .directory),
    (["app", "pages", "order.ts"], .link "../../shared/order.ts"),
    (["shared"], .directory),
    (["shared", "order.ts"], .file (FileTree.encode "OrderStatus.PAID".toList))]
  current := ["app"]

theorem run_footprint_outsideTree :
    (run outsideTree false ["pages/order.ts"]).tree.entry? ["shared", "order.ts"] ≠
      outsideTree.entry? ["shared", "order.ts"] ∧
    Sought outsideTree ["pages/order.ts"] ["shared", "order.ts"] ∧
    Idle outsideTree ["pages/order.ts", "--dry-run"] ∧
    (run outsideTree false ["pages/order.ts", "--dry-run"]).tree = outsideTree := by
  have differs : (run outsideTree false ["pages/order.ts"]).tree.entry? ["shared", "order.ts"] ≠
      outsideTree.entry? ["shared", "order.ts"] := by
    have reads : Arguments.read ["pages/order.ts"] = .ok { path := some "pages/order.ts" } := rfl
    have sets : settings outsideTree { path := some "pages/order.ts" } = .ok {} := by
      decide +kernel
    rw [run_tree_of_accepted reads sets rfl]
    decide +kernel
  have idle : Idle outsideTree ["pages/order.ts", "--dry-run"] := .dryRun (by decide)
  exact ⟨differs, ((run_footprint outsideTree false ["pages/order.ts"]).2.1 _ differs).1, idle,
    (run_footprint outsideTree false ["pages/order.ts", "--dry-run"]).2.2 idle⟩

end Command

end Codemod
