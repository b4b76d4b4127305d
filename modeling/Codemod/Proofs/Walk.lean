import Codemod.Discovery
import Codemod.Proofs.Paths

/-!
# What a walk finds

A walk joins the names it meets to the path of its root, so each file it finds
has a trail of names below the root, and no trail comes twice. In a tree
without links the trail is also the way from the root's location to the file,
so that two files found are two files. With links, several paths may lead to
one file.
-/

namespace Codemod

namespace FileTree.Unlinked

variable {tree : FileTree}

theorem advance_append (h : tree.Unlinked) (followLast : Bool) (location : Location)
    (first second : List Text) :
    tree.advance followLast location (first ++ second) =
      (tree.advance followLast location first >>= fun
        | .arrived middle => tree.advance followLast middle second
        | lead => pure lead) := by
  induction first generalizing location with
  | nil => rfl
  | cons piece rest ih =>
    simp only [List.cons_append, advance]
    split
    · rfl
    · split
      · exact ih location
      · split
        · exact ih location.dropLast
        · cases found : tree.entry? (location ++ [String.ofList piece]) with
          | none => rfl
          | some entry =>
            cases entry with
            | directory => exact ih _
            | file bytes => exact ih _
            | link target => exact absurd found (h.entry?_ne _ target)

theorem advance_ne_link (h : tree.Unlinked) {followLast : Bool} {location directory : Location}
    {pieces rest : List Text} {target : Path} :
    tree.advance followLast location pieces ≠ .ok (.link directory target rest) := by
  induction pieces generalizing location with
  | nil => simp [advance, pure, Except.pure]
  | cons piece more ih =>
    intro lead
    rcases advance_cons_ok lead with
      ⟨-, lead⟩ | ⟨-, lead⟩ | ⟨-, -, ⟨-, -, -, lead⟩ | ⟨target, found, -⟩⟩
    · exact ih lead
    · exact ih lead
    · exact ih lead
    · exact h.entry?_ne _ target found

theorem find_eq_ok_iff (h : tree.Unlinked) {followLast : Bool} {path : Path} {place : Location} :
    tree.find followLast path = .ok place ↔ path ≠ "" ∧
      tree.advance followLast (if path.isAbsolute then [] else tree.current) path.pieces =
        .ok (.arrived place) := by
  rw [find]
  split
  next empty => simp [empty, throw, throwThe, MonadExceptOf.throw]
  next nonempty =>
    rw [travel]
    cases lead : tree.advance followLast (if path.isAbsolute then [] else tree.current)
        path.pieces with
    | error cause => simp [throw, throwThe, MonadExceptOf.throw]
    | ok lead' =>
      cases lead' with
      | arrived middle => simp [nonempty, pure, Except.pure]
      | link directory target rest => exact absurd lead h.advance_ne_link

theorem advance_stem (h : tree.Unlinked) {followLast : Bool} {path : Path} (ne : path ≠ "")
    {start location : Location}
    (lead : tree.advance followLast start path.pieces = .ok (.arrived location)) :
    tree.advance followLast start path.stem = .ok (.arrived location) := by
  rcases Path.pieces_eq_stem ne with same | slash
  · rwa [← same]
  · rw [slash, h.advance_append] at lead
    cases first : tree.advance followLast start path.stem with
    | error cause => simp [first, bind, Except.bind] at lead
    | ok lead' =>
      cases lead' with
      | link directory target rest => exact absurd first h.advance_ne_link
      | arrived middle =>
        rw [first] at lead
        rcases advance_cons_ok lead with ⟨-, stays⟩ | ⟨up, -⟩ | ⟨step, -⟩
        · exact stays
        · cases up
        · cases step

theorem locate_join (h : tree.Unlinked) {path : Path} {name : String} {location place : Location}
    (isName : IsName name) (above : tree.locate path = .ok location)
    (below : tree.locate (path.join name) = .ok place) : place = location ++ [name] := by
  obtain ⟨ne, above⟩ := h.find_eq_ok_iff.mp above
  obtain ⟨-, below⟩ := h.find_eq_ok_iff.mp below
  rw [Path.isAbsolute_join ne isName, Path.pieces_join path isName, h.advance_append,
    h.advance_stem ne above] at below
  rcases advance_cons_ok below with
    ⟨stays, -⟩ | ⟨up, -⟩ | ⟨-, -, ⟨-, -, -, arrived⟩ | ⟨target, found, -⟩⟩
  · simp [isName.isStep] at stays
  · exact absurd up isName.ne_up
  · cases arrived
    simp
  · exact absurd found (h.entry?_ne _ target)

end FileTree.Unlinked

-- ---------------------------------------------------------------------------
-- Names in a directory
-- ---------------------------------------------------------------------------

namespace FileTree

def nameIn? (directory location : Location) : Option String :=
  match location.getLast? with
  | some name => if location.dropLast = directory then some name else none
  | none => none

theorem nameIn?_eq_some_iff {directory location : Location} {name : String} :
    nameIn? directory location = some name ↔ location = directory ++ [name] := by
  rw [nameIn?]
  rcases List.eq_nil_or_concat location with rfl | ⟨front, last, rfl⟩
  · simp
  · simp only [List.concat_eq_append, List.getLast?_concat, List.dropLast_concat]
    constructor
    · intro h
      split at h
      next same => cases h; rw [same]
      next => cases h
    · intro h
      obtain ⟨rfl, last⟩ := List.append_inj' h rfl
      simpa using last

theorem namesIn_perm (tree : FileTree) (directory : Location) :
    (tree.namesIn directory).Perm ((tree.entries.map Prod.fst).filterMap (nameIn? directory)) := by
  rw [List.filterMap_map]
  exact List.mergeSort_perm _ _

theorem mem_namesIn {tree : FileTree} {directory : Location} {name : String} :
    name ∈ tree.namesIn directory ↔ directory ++ [name] ∈ tree.entries.map Prod.fst := by
  rw [(tree.namesIn_perm directory).mem_iff, List.mem_filterMap]
  constructor
  · rintro ⟨location, mem, named⟩
    rwa [← nameIn?_eq_some_iff.mp named]
  · intro mem
    exact ⟨_, mem, nameIn?_eq_some_iff.mpr rfl⟩

namespace WellFormed

variable {tree : FileTree}

theorem isName (wf : tree.WellFormed) {directory : Location} {name : String}
    (mem : name ∈ tree.namesIn directory) : IsName name :=
  wf.named _ (mem_namesIn.mp mem) name (by simp)

theorem nodup_namesIn (wf : tree.WellFormed) (directory : Location) :
    (tree.namesIn directory).Nodup := by
  rw [(tree.namesIn_perm directory).nodup_iff]
  refine wf.unique.filterMap fun a b name memA memB => ?_
  exact (nameIn?_eq_some_iff.mp memA).trans (nameIn?_eq_some_iff.mp memB).symm

end WellFormed

def HoldsFile (tree : FileTree) (path : Path) : Prop :=
  ∃ location bytes, tree.locate path = .ok location ∧ tree.entry? location = some (.file bytes)

end FileTree

-- ---------------------------------------------------------------------------
-- The files found
-- ---------------------------------------------------------------------------

namespace Discovery

open FileTree (IsName HoldsFile)

variable {tree : FileTree} {options : Options}

theorem look_eq_file {opened : List OpenDirectory} {path : Path}
    (h : look tree opened path = .file) :
    ∃ location, tree.locate path = .ok location ∧ tree.isDirectoryAt location = false := by
  rw [look] at h
  split at h
  next => cases h
  next => cases h
  next location _ found =>
    split at h
    next notDir => exact ⟨location, found, by simpa using notDir⟩
    next =>
      split at h
      next => cases h
      next => split at h <;> cases h

theorem look_eq_directory {opened : List OpenDirectory} {path : Path} {location : Location}
    (h : look tree opened path = .directory location) : tree.locate path = .ok location := by
  rw [look] at h
  split at h
  next => cases h
  next => cases h
  next found =>
    split at h
    next => cases h
    next =>
      split at h
      next => cases h; exact found
      next =>
        split at h
        next => cases h
        next => cases h; exact found

def filesAt (tree : FileTree) (options : Options) (depth : Nat) (opened : List OpenDirectory)
    (ignoring : Option Ignoring) (path : Path) (name : String) : List Path :=
  match look tree opened (path.join name) with
  | .trouble _ => []
  | .file =>
    if isSkipped options ignoring (path.join name) name false then []
    else if isWanted options (path.join name) then [path.join name]
    else []
  | .directory location =>
    if isSkipped options ignoring (path.join name) name true then []
    else filesOf (below tree options depth opened ignoring (path.join name) location)

theorem filesOf_below (depth : Nat) (opened : List OpenDirectory) (ignoring : Option Ignoring)
    (path : Path) (location : Location) :
    filesOf (below tree options (depth + 1) opened ignoring path location) =
      (tree.namesIn location).flatMap (filesAt tree options depth (⟨path, location⟩ :: opened)
        (ignoring.map (·.enter tree path)) path) := by
  rw [below, filesOf, List.filterMap_flatMap]
  refine List.flatMap_congr fun name _ => ?_
  simp only [filesAt]
  cases look tree (⟨path, location⟩ :: opened) (path.join name) with
  | trouble cause => rfl
  | file =>
    simp only
    split
    · rfl
    · split <;> rfl
  | directory place =>
    simp only
    split <;> rfl

variable {depth : Nat} {opened : List OpenDirectory} {ignoring : Option Ignoring}
  {path file : Path} {location : Location} {name : String}

theorem mem_filesAt (mem : file ∈ filesAt tree options depth opened ignoring path name) :
    (file = path.join name ∧ look tree opened file = .file) ∨
    ∃ place, look tree opened (path.join name) = .directory place ∧
      file ∈ filesOf (below tree options depth opened ignoring (path.join name) place) := by
  rw [filesAt] at mem
  split at mem
  next => cases mem
  next seen =>
    split at mem
    next => cases mem
    next =>
      split at mem
      next =>
        rw [List.mem_singleton] at mem
        exact .inl ⟨mem, mem ▸ seen⟩
      next => cases mem
  next place seen =>
    split at mem
    next => cases mem
    next => exact .inr ⟨place, seen, mem⟩

/-- The way from a directory to a file that was found below it. In a tree without links the names
also lead from location to location. -/
structure Trail (tree : FileTree) (path : Path) (location : Location) (file : Path) where
  names : List String
  ne_nil : names ≠ []
  isName : ∀ name ∈ names, IsName name
  joined : file = path.joinAll names
  leads : tree.Unlinked → tree.locate path = .ok location →
    tree.locate file = .ok (location ++ names)

theorem exists_trail (wf : tree.WellFormed)
    (mem : file ∈ filesOf (below tree options depth opened ignoring path location)) :
    Nonempty (Trail tree path location file) := by
  induction depth generalizing opened ignoring path location with
  | zero => cases mem
  | succ depth ih =>
    rw [filesOf_below, List.mem_flatMap] at mem
    obtain ⟨name, inside, mem⟩ := mem
    have isName := wf.isName inside
    rcases mem_filesAt mem with ⟨rfl, seen⟩ | ⟨place, seen, mem⟩
    · obtain ⟨place, found, -⟩ := look_eq_file seen
      refine ⟨[name], by simp, by simpa using isName, rfl, fun unlinked above => ?_⟩
      rw [found, unlinked.locate_join isName above found]
    · obtain ⟨trail⟩ := ih mem
      have found := look_eq_directory seen
      refine ⟨name :: trail.names, by simp, ?_, trail.joined, fun unlinked above => ?_⟩
      · simpa using ⟨isName, trail.isName⟩
      · obtain rfl := unlinked.locate_join isName above found
        rw [trail.leads unlinked found]
        simp

theorem holdsFile_of_look (wf : tree.WellFormed) (seen : look tree opened path = .file) :
    tree.HoldsFile path := by
  obtain ⟨location, found, notDir⟩ := look_eq_file seen
  rcases wf.locate_ok found with dir | ⟨bytes, holds⟩
  · simp [FileTree.isDirectoryAt, dir] at notDir
  · exact ⟨location, bytes, found, holds⟩

theorem holdsFile_of_mem_below (wf : tree.WellFormed)
    (mem : file ∈ filesOf (below tree options depth opened ignoring path location)) :
    tree.HoldsFile file := by
  induction depth generalizing opened ignoring path location with
  | zero => cases mem
  | succ depth ih =>
    rw [filesOf_below, List.mem_flatMap] at mem
    obtain ⟨name, -, mem⟩ := mem
    rcases mem_filesAt mem with ⟨rfl, seen⟩ | ⟨place, -, mem⟩
    · exact holdsFile_of_look wf seen
    · exact ih mem

theorem exists_names_of_mem_filesAt (wf : tree.WellFormed) (isName : IsName name)
    (mem : file ∈ filesAt tree options depth opened ignoring path name) :
    ∃ names, (∀ other ∈ name :: names, IsName other) ∧ file = path.joinAll (name :: names) := by
  rcases mem_filesAt mem with ⟨rfl, -⟩ | ⟨place, -, mem⟩
  · exact ⟨[], by simpa using isName, rfl⟩
  · obtain ⟨trail⟩ := exists_trail wf mem
    exact ⟨trail.names, by simpa using ⟨isName, trail.isName⟩, trail.joined⟩

theorem nodup_filesOf_below (wf : tree.WellFormed) :
    (filesOf (below tree options depth opened ignoring path location)).Nodup := by
  induction depth generalizing opened ignoring path location with
  | zero => exact .nil
  | succ depth ih =>
    rw [filesOf_below, List.nodup_flatMap]
    constructor
    · intro name _
      rw [filesAt]
      split
      · exact .nil
      · split
        · exact .nil
        · split <;> simp
      · split
        · exact .nil
        · exact ih
    · refine (wf.nodup_namesIn location).imp_of_mem fun {left right} memLeft memRight ne => ?_
      intro file foundLeft foundRight
      obtain ⟨moreLeft, namesLeft, joinedLeft⟩ :=
        exists_names_of_mem_filesAt wf (wf.isName memLeft) foundLeft
      obtain ⟨moreRight, namesRight, joinedRight⟩ :=
        exists_names_of_mem_filesAt wf (wf.isName memRight) foundRight
      have same := Path.joinAll_inj path (by simp) (by simp) namesLeft namesRight
        (joinedLeft.symm.trans joinedRight)
      exact ne (List.cons.inj same).1

-- ---------------------------------------------------------------------------
-- A whole walk
-- ---------------------------------------------------------------------------

variable {root : Path}

theorem files_cases (tree : FileTree) (options : Options) (root : Path) :
    files tree options root = [] ∨
    (files tree options root = [root] ∧ look tree [] root = .file) ∨
    ∃ location ignoring, look tree [] root = .directory location ∧
      files tree options root =
        filesOf (below tree options (depthBound tree) [] ignoring root location) := by
  rw [files, findings]
  split
  next => exact .inl rfl
  next =>
    split
    next => exact .inl rfl
    next seen =>
      split
      next => exact .inr (.inl ⟨rfl, seen⟩)
      next => exact .inl rfl
    next location seen =>
      refine .inr (.inr ⟨location,
        if options.respectGitignore then some (Ignoring.ofRoot tree root) else none, seen, ?_⟩)
      generalize (if options.respectGitignore then some (Ignoring.ofRoot tree root) else none) =
        ignoring
      simp only [filesOf, List.filterMap_append]
      split <;> simp

theorem files_eq_filesOf_below (notDash : root.isJust ['-'] = false)
    (heedless : options.respectGitignore = false) (seen : look tree [] root = .directory location) :
    files tree options root =
      filesOf (below tree options (depthBound tree) [] none root location) := by
  rw [files, findings, notDash, seen, heedless]
  rfl

/-- Below a directory, a walk that heeds no ignore files looks at one entry after the other. -/
theorem files_of_directory (notDash : root.isJust ['-'] = false)
    (heedless : options.respectGitignore = false) (seen : look tree [] root = .directory location) :
    files tree options root = (tree.namesIn location).flatMap
      (filesAt tree options (depthBound tree - 1) [⟨root, location⟩] none root) := by
  have deep : depthBound tree = depthBound tree - 1 + 1 := by
    have positive : 0 < depthBound tree := Nat.mul_pos (Nat.succ_pos _) (Nat.succ_pos _)
    omega
  rw [files_eq_filesOf_below notDash heedless seen, deep]
  exact filesOf_below _ _ _ _ _

theorem holdsFile_of_mem_files (wf : tree.WellFormed) (mem : file ∈ files tree options root) :
    tree.HoldsFile file := by
  rcases files_cases tree options root with none | ⟨only, seen⟩ | ⟨location, ignoring, -, found⟩
  · rw [none] at mem
    cases mem
  · rw [only, List.mem_singleton] at mem
    exact mem ▸ holdsFile_of_look wf seen
  · rw [found] at mem
    exact holdsFile_of_mem_below wf mem

theorem nodup_files (wf : tree.WellFormed) : (files tree options root).Nodup := by
  rcases files_cases tree options root with none | ⟨only, -⟩ | ⟨location, ignoring, -, found⟩
  · simp [none]
  · simp [only]
  · rw [found]
    exact nodup_filesOf_below wf

theorem pairwise_locate_ne (wf : tree.WellFormed) (unlinked : tree.Unlinked) :
    (files tree options root).Pairwise fun a b => tree.locate a ≠ tree.locate b := by
  rcases files_cases tree options root with none | ⟨only, -⟩ | ⟨location, ignoring, seen, found⟩
  · simp [none]
  · simp [only]
  · rw [found]
    have top := look_eq_directory seen
    refine (nodup_filesOf_below wf).imp_of_mem fun {left right} memLeft memRight ne same => ?_
    obtain ⟨trailLeft⟩ := exists_trail wf memLeft
    obtain ⟨trailRight⟩ := exists_trail wf memRight
    rw [trailLeft.leads unlinked top, trailRight.leads unlinked top] at same
    have names := List.append_cancel_left (Except.ok.inj same)
    exact ne (trailLeft.joined.trans (names ▸ trailRight.joined.symm))

end Discovery

end Codemod
