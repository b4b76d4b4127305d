import Codemod.Proofs.Walk
import Mathlib.Data.List.Perm.Subperm

/-!
# A walk finds what is sought

In a tree without links, a walk that heeds no ignore files is a walk over
locations: `trails` collects the names below the root on the way to each file,
and the paths found are these names joined to the root (`filesOf_below_eq`).
The trails are those of the files that are sought (`mem_trails`), since no
location is deeper than there are entries.

They come in depth-first order. Names are compared by their characters, which
is the same as to compare their bytes (`encode_lt_encode`).
-/

namespace Codemod

namespace FileTree

-- ---------------------------------------------------------------------------
-- Names in the order of their bytes
-- ---------------------------------------------------------------------------

theorem byte_cons_lt {m n : Nat} (small : n < 256) (le : m ≤ n) {left right : List UInt8}
    (rest : m = n → left < right) : UInt8.ofNat m :: left < UInt8.ofNat n :: right := by
  rw [List.cons_lt_cons_iff]
  rcases Nat.lt_or_eq_of_le le with less | same
  · left
    rw [UInt8.lt_iff_toNat_lt, UInt8.toNat_ofNat_of_lt' (less.trans small),
      UInt8.toNat_ofNat_of_lt' small]
    exact less
  · exact .inr ⟨by rw [same], rest same⟩

theorem utf8EncodeChar_append_lt {c d : Char} (less : c < d) (left right : List UInt8) :
    String.utf8EncodeChar c ++ left < String.utf8EncodeChar d ++ right := by
  have less : c.val.toNat < d.val.toNat := less
  have bound : d.val.toNat < 0x110000 := by
    rcases d.valid with early | late
    · exact Nat.lt_trans early (by decide)
    · exact late.2
  simp only [String.utf8EncodeChar]
  generalize c.val.toNat = low at *
  generalize d.val.toNat = high at *
  split_ifs
  -- the first byte decides between characters of different lengths
  any_goals solve | refine byte_cons_lt ?_ ?_ ?_ <;> omega
  · refine byte_cons_lt (by omega) (by omega) fun first => ?_
    exact byte_cons_lt (by omega) (by omega) (by omega)
  · refine byte_cons_lt (by omega) (by omega) fun first => ?_
    refine byte_cons_lt (by omega) (by omega) fun second => ?_
    exact byte_cons_lt (by omega) (by omega) (by omega)
  · refine byte_cons_lt (by omega) (by omega) fun first => ?_
    refine byte_cons_lt (by omega) (by omega) fun second => ?_
    refine byte_cons_lt (by omega) (by omega) fun third => ?_
    exact byte_cons_lt (by omega) (by omega) (by omega)

theorem encode_lt_encode {left right : Text} (less : left < right) :
    encode left < encode right := by
  induction less with
  | @nil c rest =>
    have filled : String.utf8EncodeChar c ≠ [] := String.utf8EncodeChar_ne_nil
    obtain ⟨byte, more, bytes⟩ := List.exists_cons_of_ne_nil filled
    rw [encode, encode, List.flatMap_cons, bytes]
    exact List.nil_lt_cons _ _
  | cons less ih => exact List.append_left_lt ih
  | rel less => exact utf8EncodeChar_append_lt less _ _

/-- The order of names by their bytes. -/
def NameBefore (left right : String) : Prop := encode left.toList < encode right.toList

theorem mem_namesIn_iff {tree : FileTree} {directory : Location} {name : String} :
    name ∈ tree.namesIn directory ↔ ∃ entry, tree.entry? (directory ++ [name]) = some entry := by
  rw [mem_namesIn, entry?_of_ne_nil _ (by simp), ← Option.ne_none_iff_exists', ne_eq,
    List.lookup_eq_none_iff]
  simp only [bne_iff_ne, not_forall, not_not, List.mem_map]
  simp only [exists_prop, @eq_comm _ (directory ++ [name])]

theorem ne_nil_of_file {tree : FileTree} {location : Location} {names : List String}
    {bytes : List UInt8} (dir : tree.isDirectoryAt location = true)
    (file : tree.entry? (location ++ names) = some (.file bytes)) : names ≠ [] := by
  rintro rfl
  rw [List.append_nil] at file
  simp [isDirectoryAt, file] at dir

namespace WellFormed

variable {tree : FileTree} {location : Location} {names : List String} {entry : Entry}

theorem pairwise_namesIn (wf : tree.WellFormed) (directory : Location) :
    (tree.namesIn directory).Pairwise NameBefore := by
  have sorted : (tree.namesIn directory).Pairwise (· ≤ ·) := by
    have trans (a b c : String) : decide (a ≤ b) = true → decide (b ≤ c) = true →
        decide (a ≤ c) = true := by simpa using String.le_trans
    have total (a b : String) : (decide (a ≤ b) || decide (b ≤ a)) = true := by
      simpa using String.le_total a b
    exact (List.pairwise_mergeSort trans total _).imp of_decide_eq_true
  refine (sorted.and (wf.nodup_namesIn directory)).imp fun {left right} ⟨le, ne⟩ => ?_
  have less : left < right := String.not_le.mp fun ge => ne (String.le_antisymm le ge)
  exact encode_lt_encode less

-- ---------------------------------------------------------------------------
-- The depth of a tree
-- ---------------------------------------------------------------------------

theorem isDirectoryAt_of_below (wf : tree.WellFormed) (ne : names ≠ [])
    (found : tree.entry? (location ++ names) = some entry) :
    tree.isDirectoryAt location = true := by
  induction names generalizing location with
  | nil => exact absurd rfl ne
  | cons name rest ih =>
    rw [List.append_cons] at found
    by_cases last : rest = []
    · subst last
      rw [List.append_nil] at found
      have parent := wf.parent _ (List.mem_map_of_mem (mem_entries (by simp) found))
      rwa [List.dropLast_concat] at parent
    · simpa using wf.isDirectoryAt_dropLast (ih last found)

theorem exists_entry (wf : tree.WellFormed)
    (found : tree.entry? (location ++ names) = some entry) :
    ∃ above, tree.entry? location = some above := by
  by_cases here : names = []
  · exact ⟨entry, by simpa [here] using found⟩
  · exact ⟨.directory, by simpa [isDirectoryAt] using wf.isDirectoryAt_of_below here found⟩

/-- No location is deeper than there are entries: what lies above it has entries of its own. -/
theorem length_le (wf : tree.WellFormed) (found : tree.entry? location = some entry) :
    location.length ≤ tree.entries.length := by
  let above := (List.range location.length).map fun index => location.take (index + 1)
  have nodup : above.Nodup := by
    refine List.nodup_range.map_on fun i hi j hj same => ?_
    have lengths := congrArg List.length same
    simp only [List.mem_range, List.length_take] at hi hj lengths
    omega
  have entries : above ⊆ tree.entries.map Prod.fst := by
    intro place mem
    obtain ⟨index, inside, rfl⟩ := List.mem_map.mp mem
    have filled : location ≠ [] := by
      rintro rfl
      simp at inside
    rw [← List.take_append_drop (index + 1) location] at found
    obtain ⟨entry, stands⟩ := wf.exists_entry found
    exact List.mem_map_of_mem (mem_entries (by simp [filled]) stands)
  simpa [above] using (nodup.subperm entries).length_le

end WellFormed

namespace Unlinked

variable {tree : FileTree} {path : Path} {location : Location} {name : String} {entry : Entry}

theorem advance_eq (h : tree.Unlinked) (location : Location) (pieces : List Text) :
    tree.advance false location pieces = tree.advance true location pieces := by
  induction pieces generalizing location with
  | nil => rfl
  | cons piece rest ih =>
    rw [advance, advance]
    simp only [ih]
    cases found : tree.entry? (location ++ [String.ofList piece]) with
    | none => rfl
    | some entry =>
      cases entry with
      | directory => rfl
      | file bytes => rfl
      | link target => exact absurd found (h.entry?_ne _ target)

theorem locateLink_eq (h : tree.Unlinked) (located : tree.locate path = .ok location) :
    tree.locateLink path = .ok location := by
  rw [locate, h.find_eq_ok_iff] at located
  rwa [locateLink, h.find_eq_ok_iff, h.advance_eq]

theorem advance_name (h : tree.Unlinked) (isName : IsName name)
    (dir : tree.isDirectoryAt location = true)
    (found : tree.entry? (location ++ [name]) = some entry) :
    tree.advance true location [name.toList] = .ok (.arrived (location ++ [name])) := by
  have stays : (name.toList = [] || name.toList = ['.']) = false := by
    simpa [Path.isStep] using isName.isStep
  rw [advance, dir, if_neg (by simp), if_neg (by rw [stays]; simp), if_neg isName.ne_up,
    String.ofList_toList]
  simp only [found]
  cases entry with
  | directory => rfl
  | file bytes => rfl
  | link target => exact absurd found (h.entry?_ne _ target)

theorem locate_entry (h : tree.Unlinked) (isName : IsName name)
    (above : tree.locate path = .ok location) (dir : tree.isDirectoryAt location = true)
    (found : tree.entry? (location ++ [name]) = some entry) :
    tree.locate (path.join name) = .ok (location ++ [name]) := by
  obtain ⟨ne, above⟩ := h.find_eq_ok_iff.mp above
  have filled : path.join name ≠ "" := by
    rw [Path.join, Path.isAbsolute_eq_false isName]
    simp only [Bool.false_eq_true, if_false]
    split <;> simp [ne]
  refine h.find_eq_ok_iff.mpr ⟨filled, ?_⟩
  rw [Path.isAbsolute_join ne isName, Path.pieces_join path isName, h.advance_append,
    h.advance_stem ne above]
  exact h.advance_name isName dir found

end Unlinked

end FileTree

-- ---------------------------------------------------------------------------
-- What is sought
-- ---------------------------------------------------------------------------

namespace Discovery

/-- `*.end` excludes the names with this ending. A star alone, or before anything but a dot,
excludes nothing. -/
inductive Excludes (exclude name : String) : Prop
  | ending {rest : Text} (_ : exclude.toList = '*' :: '.' :: rest)
      (_ : '.' :: rest <:+ name.toList)
  | whole (_ : exclude.toList.head? ≠ some '*') (_ : name = exclude)

theorem matchesExclude_iff {name exclude : String} :
    matchesExclude name exclude = true ↔ Excludes exclude name := by
  rw [matchesExclude]
  split
  next ending starred =>
    constructor
    · intro h
      simp only [Bool.and_eq_true, decide_eq_true_eq, List.isSuffixOf_iff_suffix] at h
      obtain ⟨dot, suffix⟩ := h
      obtain ⟨rest, rfl⟩ := List.head?_eq_some_iff.mp dot
      exact .ending starred suffix
    · rintro (⟨spelled, suffix⟩ | ⟨unstarred, -⟩)
      · rw [starred] at spelled
        obtain ⟨-, rfl⟩ := List.cons.inj spelled
        simpa using suffix
      · simp [starred] at unstarred
  next unstarred =>
    rw [decide_eq_true_eq, String.toList_inj]
    constructor
    · refine .whole fun star => ?_
      obtain ⟨ending, starred⟩ := List.head?_eq_some_iff.mp star
      exact unstarred ending starred
    · rintro (⟨starred, -⟩ | ⟨-, same⟩)
      · exact absurd starred (unstarred _)
      · exact same

instance (exclude name : String) : Decidable (Excludes exclude name) :=
  decidable_of_iff _ matchesExclude_iff

variable {tree : FileTree} {options : Options} {path : Path} {location : Location}
  {name : String} {names : List String}

/-- A file below a directory that no rule leaves out. -/
structure Sought (tree : FileTree) (options : Options) (path : Path) (location : Location)
    (names : List String) : Prop where
  isFile : ∃ bytes, tree.entry? (location ++ names) = some (.file bytes)
  visible : ∀ name ∈ names, name.toList.head? ≠ some '.'
  entered : ∀ folder ∈ names.dropLast,
    ∀ exclude ∈ usualExcludes ++ options.excludeFolders, ¬ Excludes exclude folder
  wanted : ∃ extension ∈ options.extensions,
    (path.joinAll names).extension? = some extension.toList

theorem isWanted_iff :
    isWanted options path = true ↔
      ∃ extension ∈ options.extensions, path.extension? = some extension.toList := by
  rw [isWanted]
  cases path.extension? with
  | none => simp
  | some extension =>
    constructor
    · intro contains
      exact ⟨String.ofList extension, by simpa using contains, by simp⟩
    · rintro ⟨wanted, mem, same⟩
      have same : String.ofList extension = wanted := by
        rw [Option.some.inj same, String.ofList_toList]
      simpa [same] using mem

theorem isSkipped_none {isDirectory : Bool} :
    isSkipped options none path name isDirectory = false ↔
      name.toList.head? ≠ some '.' ∧
      (isDirectory = true → ∀ exclude ∈ usualExcludes ++ options.excludeFolders,
        ¬ Excludes exclude name) := by
  simp only [isSkipped, isExcluded, ← matchesExclude_iff]
  cases isDirectory <;> simp [or_imp, forall_and]

namespace Sought

variable {rest : List String}

theorem ne_nil (h : Sought tree options path location names)
    (dir : tree.isDirectoryAt location = true) : names ≠ [] := by
  obtain ⟨bytes, file⟩ := h.isFile
  exact FileTree.ne_nil_of_file dir file

theorem cons_directory_iff (dir : tree.isDirectoryAt (location ++ [name]) = true) :
    Sought tree options path location (name :: rest) ↔
      isSkipped options none (path.join name) name true = false ∧
      Sought tree options (path.join name) (location ++ [name]) rest := by
  have place : location ++ name :: rest = location ++ [name] ++ rest := List.append_cons _ _ _
  rw [isSkipped_none]
  constructor
  · rintro ⟨isFile, visible, entered, wanted⟩
    rw [place] at isFile
    obtain ⟨visible, visibleRest⟩ := List.forall_mem_cons.mp visible
    obtain ⟨bytes, file⟩ := isFile
    rw [List.dropLast_cons_of_ne_nil (FileTree.ne_nil_of_file dir file)] at entered
    obtain ⟨entered, enteredRest⟩ := List.forall_mem_cons.mp entered
    exact ⟨⟨visible, fun _ => entered⟩, ⟨bytes, file⟩, visibleRest, enteredRest, wanted⟩
  · rintro ⟨⟨visible, entered⟩, below⟩
    refine ⟨place ▸ below.isFile, List.forall_mem_cons.mpr ⟨visible, below.visible⟩, ?_,
      below.wanted⟩
    rw [List.dropLast_cons_of_ne_nil (below.ne_nil dir)]
    exact List.forall_mem_cons.mpr ⟨entered rfl, below.entered⟩

theorem cons_file_iff (wf : tree.WellFormed) {bytes : List UInt8}
    (file : tree.entry? (location ++ [name]) = some (.file bytes)) :
    Sought tree options path location (name :: rest) ↔
      rest = [] ∧ isSkipped options none (path.join name) name false = false ∧
      isWanted options (path.join name) = true := by
  rw [isSkipped_none, isWanted_iff]
  constructor
  · rintro ⟨⟨bytes, found⟩, visible, -, wanted⟩
    have flat : rest = [] := by
      by_contra inner
      rw [List.append_cons] at found
      have dir := wf.isDirectoryAt_of_below inner found
      simp [FileTree.isDirectoryAt, file] at dir
    subst flat
    exact ⟨rfl, ⟨visible name List.mem_cons_self, by simp⟩, wanted⟩
  · rintro ⟨rfl, ⟨visible, -⟩, wanted⟩
    exact ⟨⟨bytes, file⟩, by simpa using visible, by simp, wanted⟩

end Sought

-- ---------------------------------------------------------------------------
-- The trails of a walk
-- ---------------------------------------------------------------------------

def trailsAt (tree : FileTree) (options : Options) (inner : List (List String)) (path : Path)
    (location : Location) (name : String) : List (List String) :=
  match tree.entry? (location ++ [name]) with
  | some .directory =>
    if isSkipped options none (path.join name) name true then [] else inner.map (name :: ·)
  | some (.file _) =>
    if isSkipped options none (path.join name) name false then []
    else if isWanted options (path.join name) then [[name]]
    else []
  | _ => []

/-- The names on the way from a directory to each file that a walk finds below it. -/
def trails (tree : FileTree) (options : Options) :
    (depth : Nat) → Path → Location → List (List String)
  | 0, _, _ => []
  | depth + 1, path, location =>
    (tree.namesIn location).flatMap fun name =>
      trailsAt tree options (trails tree options depth (path.join name) (location ++ [name])) path
        location name

variable {depth : Nat} {opened : List OpenDirectory} {inner : List (List String)}

theorem look_eq (unlinked : tree.Unlinked) (located : tree.locate path = .ok location) :
    look tree opened path =
      if tree.isDirectoryAt location then .directory location else .file := by
  rw [look, unlinked.locateLink_eq located, located]
  cases dir : tree.isDirectoryAt location <;> simp [dir]

theorem filesAt_eq (wf : tree.WellFormed) (unlinked : tree.Unlinked)
    (located : tree.locate path = .ok location) (dir : tree.isDirectoryAt location = true)
    (mem : name ∈ tree.namesIn location)
    (deeper : tree.locate (path.join name) = .ok (location ++ [name]) →
      tree.isDirectoryAt (location ++ [name]) = true →
      filesOf (below tree options depth opened none (path.join name) (location ++ [name])) =
        inner.map (path.join name).joinAll) :
    filesAt tree options depth opened none path name =
      (trailsAt tree options inner path location name).map path.joinAll := by
  obtain ⟨entry, found⟩ := FileTree.mem_namesIn_iff.mp mem
  have located := unlinked.locate_entry (wf.isName mem) located dir found
  rw [filesAt, trailsAt, look_eq unlinked located]
  cases entry with
  | directory =>
    have dir : tree.isDirectoryAt (location ++ [name]) = true := by
      simp [FileTree.isDirectoryAt, found]
    simp only [found, dir, if_true, deeper located dir]
    split
    · rfl
    · rw [List.map_map]
      rfl
  | file bytes =>
    have file : tree.isDirectoryAt (location ++ [name]) = false := by
      simp [FileTree.isDirectoryAt, found]
    simp only [found, file, Bool.false_eq_true, if_false]
    split
    · rfl
    · split <;> rfl
  | link target => exact absurd found (unlinked.entry?_ne _ target)

theorem filesOf_below_eq (wf : tree.WellFormed) (unlinked : tree.Unlinked)
    (located : tree.locate path = .ok location) (dir : tree.isDirectoryAt location = true) :
    filesOf (below tree options depth opened none path location) =
      (trails tree options depth path location).map path.joinAll := by
  induction depth generalizing opened path location with
  | zero => rfl
  | succ depth ih =>
    rw [filesOf_below, trails, List.map_flatMap]
    exact List.flatMap_congr fun name mem => filesAt_eq wf unlinked located dir mem ih

theorem mem_trailsAt (wf : tree.WellFormed) (unlinked : tree.Unlinked)
    (deeper : tree.isDirectoryAt (location ++ [name]) = true → ∀ rest, rest ∈ inner ↔
      rest.length ≤ depth ∧ Sought tree options (path.join name) (location ++ [name]) rest) :
    names ∈ trailsAt tree options inner path location name ↔
      ∃ rest, rest.length ≤ depth ∧ Sought tree options path location (name :: rest) ∧
        name :: rest = names := by
  rw [trailsAt]
  cases found : tree.entry? (location ++ [name]) with
  | none =>
    simp only [List.not_mem_nil, false_iff]
    rintro ⟨rest, -, ⟨⟨bytes, file⟩, -⟩, -⟩
    rw [List.append_cons] at file
    obtain ⟨entry, stands⟩ := wf.exists_entry file
    rw [found] at stands
    cases stands
  | some entry =>
    cases entry with
    | directory =>
      have dir : tree.isDirectoryAt (location ++ [name]) = true := by
        simp [FileTree.isDirectoryAt, found]
      simp only [Sought.cons_directory_iff dir]
      split
      next skipped => simp [skipped]
      next kept => simp [kept, deeper dir, and_assoc]
    | file bytes =>
      simp only [Sought.cons_file_iff wf found]
      split
      next skipped => simp [skipped]
      next kept =>
        split
        next wanted => simp [kept, wanted, eq_comm]
        next unwanted => simp [unwanted]
    | link target => exact absurd found (unlinked.entry?_ne _ target)

theorem mem_trails (wf : tree.WellFormed) (unlinked : tree.Unlinked)
    (dir : tree.isDirectoryAt location = true) :
    names ∈ trails tree options depth path location ↔
      names.length ≤ depth ∧ Sought tree options path location names := by
  -- both sides go down by one name; at depth zero no trail is left, as none is empty
  induction depth generalizing path location names with
  | zero =>
    constructor
    · intro mem
      cases mem
    · rintro ⟨empty, sought⟩
      exact absurd (List.length_eq_zero_iff.mp (by omega)) (sought.ne_nil dir)
  | succ depth ih =>
    rw [trails, List.mem_flatMap]
    simp only [mem_trailsAt wf unlinked fun dir rest => ih dir]
    constructor
    · rintro ⟨name, -, rest, short, sought, rfl⟩
      exact ⟨by simpa using short, sought⟩
    · rintro ⟨short, sought⟩
      obtain ⟨name, rest, rfl⟩ := List.exists_cons_of_ne_nil (sought.ne_nil dir)
      obtain ⟨bytes, file⟩ := sought.isFile
      rw [List.append_cons] at file
      have mem := FileTree.mem_namesIn_iff.mpr (wf.exists_entry file)
      exact ⟨name, mem, rest, by simpa using short, sought, rfl⟩

-- ---------------------------------------------------------------------------
-- Their order
-- ---------------------------------------------------------------------------

theorem exists_rest_of_mem_trailsAt (mem : names ∈ trailsAt tree options inner path location name) :
    ∃ rest, names = name :: rest := by
  rw [trailsAt] at mem
  split at mem
  next =>
    split at mem
    · cases mem
    · obtain ⟨rest, -, rfl⟩ := List.mem_map.mp mem
      exact ⟨rest, rfl⟩
  next =>
    split at mem
    · cases mem
    · split at mem
      · exact ⟨[], List.mem_singleton.mp mem⟩
      · cases mem
  next => cases mem

theorem pairwise_trailsAt (ordered : inner.Pairwise (List.Lex FileTree.NameBefore)) :
    (trailsAt tree options inner path location name).Pairwise (List.Lex FileTree.NameBefore) := by
  rw [trailsAt]
  split
  next =>
    split
    · exact .nil
    · rw [List.pairwise_map]
      exact ordered.imp .cons
  next =>
    split
    · exact .nil
    · split <;> simp
  next => exact .nil

theorem pairwise_trails (wf : tree.WellFormed) :
    (trails tree options depth path location).Pairwise (List.Lex FileTree.NameBefore) := by
  induction depth generalizing path location with
  | zero => exact .nil
  | succ depth ih =>
    rw [trails, List.pairwise_flatMap]
    refine ⟨fun name _ => pairwise_trailsAt ih, (wf.pairwise_namesIn location).imp ?_⟩
    intro _ _ before left memLeft right memRight
    obtain ⟨restLeft, rfl⟩ := exists_rest_of_mem_trailsAt memLeft
    obtain ⟨restRight, rfl⟩ := exists_rest_of_mem_trailsAt memRight
    exact .rel before

-- ---------------------------------------------------------------------------
-- A whole walk
-- ---------------------------------------------------------------------------

theorem Sought.length_le_depthBound (wf : tree.WellFormed)
    (sought : Sought tree options path location names) : names.length ≤ depthBound tree := by
  obtain ⟨bytes, file⟩ := sought.isFile
  have deep := wf.length_le file
  rw [List.length_append] at deep
  calc names.length ≤ tree.entries.length + 2 := by omega
    _ ≤ depthBound tree := Nat.le_mul_of_pos_left _ (Nat.succ_pos _)

/-- Below a directory, a walk finds each file that is sought, once and in depth-first order with
names in the order of their bytes. -/
theorem files_eq_map_sought {root : Path} (wf : tree.WellFormed) (unlinked : tree.Unlinked)
    (located : tree.locate root = .ok location) (dir : tree.isDirectoryAt location = true)
    (notDash : root.isJust ['-'] = false) (heedless : options.respectGitignore = false) :
    (files tree options root).Nodup ∧
    ∃ trails : List (List String),
      files tree options root = trails.map root.joinAll ∧
      trails.Pairwise (List.Lex FileTree.NameBefore) ∧
      ∀ names, names ∈ trails ↔ Sought tree options root location names := by
  have seen : look tree [] root = .directory location := by
    rw [look_eq unlinked located, if_pos dir]
  refine ⟨nodup_files wf, trails tree options (depthBound tree) root location, ?_,
    pairwise_trails wf, fun names => ?_⟩
  · rw [files_eq_filesOf_below notDash heedless seen]
    exact filesOf_below_eq wf unlinked located dir
  · rw [mem_trails wf unlinked dir]
    exact ⟨And.right, fun sought => ⟨sought.length_le_depthBound wf, sought⟩⟩

def shopTree : FileTree where
  entries := [(["shop"], .directory), (["shop", "dist.ts"], .file []),
    (["shop", "orders"], .directory), (["shop", "orders", "route.ts"], .file []),
    (["shop", "orders", ".draft.ts"], .file []), (["shop", "dist"], .directory),
    (["shop", "dist", "route.ts"], .file []), (["shop", "api.gen"], .directory),
    (["shop", "api.gen", "route.ts"], .file [])]

def shopOptions : Options := { excludeFolders := ["*.gen"] }

theorem files_shopTree :
    ∃ trails : List (List String),
      files shopTree shopOptions "shop" = trails.map (Path.joinAll "shop") ∧
      ["orders", "route.ts"] ∈ trails ∧ ["dist.ts"] ∈ trails ∧
      ["orders", ".draft.ts"] ∉ trails ∧ ["dist", "route.ts"] ∉ trails ∧
      ["api.gen", "route.ts"] ∉ trails := by
  have wf : shopTree.WellFormed := by decide +kernel
  have unlinked : shopTree.Unlinked := by simp [FileTree.Unlinked, shopTree]
  have located : shopTree.locate "shop" = .ok ["shop"] := by rfl
  have ungit : shopOptions.respectGitignore = false := rfl
  obtain ⟨-, trails, found, -, sought⟩ :=
    files_eq_map_sought wf unlinked located (by decide +kernel) (by decide +kernel) ungit
  refine ⟨trails, found, ?_⟩
  simp only [sought]
  refine ⟨⟨⟨[], rfl⟩, by decide, by decide, "ts", by decide, by decide +kernel⟩,
    ⟨⟨[], rfl⟩, by decide, by decide, "ts", by decide, by decide +kernel⟩, ?_, ?_, ?_⟩
  · exact fun hidden => hidden.visible ".draft.ts" (by decide) rfl
  · exact fun inside => inside.entered "dist" (by decide) "dist" (by decide) (by decide)
  · exact fun inside => inside.entered "api.gen" (by decide) "*.gen" (by decide) (by decide)

end Discovery

end Codemod
