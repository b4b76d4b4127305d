import Codemod.Proofs.FileTree
import Mathlib.Data.List.TakeWhile

/-!
# Paths below and above

A name joined to a path comes behind the pieces of the path, and is the file name
of what results. Names that are joined one after the other can be read off the
path again, so different names lead to different paths.

The other way round, the paths above a path come to an end: a step up leaves
fewer steps to go (`height`), so the ancestors of a path are all the paths that
steps up lead to (`climb_ancestors`).
-/

namespace Codemod

-- ---------------------------------------------------------------------------
-- Joined paths
-- ---------------------------------------------------------------------------

namespace Text

variable {α : Type} [DecidableEq α] {sep : α}

theorem splitAt_append_cons (left right : List α) :
    splitAt sep (left ++ sep :: right) = splitAt sep left ++ splitAt sep right := by
  induction left with
  | nil => simp [splitAt]
  | cons c rest ih =>
    rw [List.cons_append, splitAt, splitAt, ih]
    split
    · rfl
    · cases pieces : splitAt sep rest with
      | nil => exact absurd pieces (splitAt_ne_nil sep rest)
      | cons piece more => rfl

theorem splitAt_eq_singleton {text : List α} (h : sep ∉ text) : splitAt sep text = [text] := by
  induction text with
  | nil => rfl
  | cons c rest ih =>
    have ne : c ≠ sep := fun same => h (same ▸ List.mem_cons_self)
    rw [splitAt, if_neg ne, ih fun mem => h (List.mem_cons_of_mem _ mem)]

theorem splitAt_joinWith {pieces : List (List α)} (ne : pieces ≠ [])
    (h : ∀ piece ∈ pieces, sep ∉ piece) : splitAt sep (joinWith sep pieces) = pieces := by
  induction pieces with
  | nil => exact absurd rfl ne
  | cons piece rest ih =>
    obtain ⟨first, later⟩ := List.forall_mem_cons.mp h
    cases rest with
    | nil => exact splitAt_eq_singleton first
    | cons next more =>
      rw [joinWith, splitAt_append_cons, splitAt_eq_singleton first, ih (by simp) later]
      rfl

end Text

namespace Path

/-- The pieces that a name joined to the path comes after: those of the path, but for the empty
one after a slash at its end. -/
def stem (path : Path) : List Text :=
  if path.toList = [] || path.toList.getLast? = some '/' then path.pieces.dropLast else path.pieces

theorem isAbsolute_eq_false {name : String} (h : FileTree.IsName name) :
    isAbsolute name = false := by
  obtain ⟨-, -, -, noSlash⟩ := h
  rw [isAbsolute]
  split
  next c rest chars =>
    rw [chars] at noSlash
    simpa using fun same : c = '/' => noSlash (same ▸ List.mem_cons_self)
  next => rfl

theorem pieces_join (path : Path) {name : String} (h : FileTree.IsName name) :
    (path.join name).pieces = stem path ++ [name.toList] := by
  have noSlash := h.2.2.2
  rw [join, isAbsolute_eq_false h, stem]
  simp only [Bool.false_eq_true, if_false]
  split
  next open' =>
    rcases List.eq_nil_or_concat path.toList with empty | ⟨front, last, ends⟩
    · simp [pieces, empty, Text.splitAt, Text.splitAt_eq_singleton noSlash]
    · have slash : last = '/' := by simpa [ends] using open'
      subst slash
      simp only [pieces, String.toList_append, ends, List.concat_eq_append, List.append_assoc,
        List.singleton_append, Text.splitAt_append_cons, Text.splitAt_eq_singleton noSlash]
      simp [Text.splitAt]
  next =>
    simp [pieces, String.toList_append, Text.splitAt_append_cons,
      Text.splitAt_eq_singleton noSlash]

theorem pieces_eq_stem {path : Path} (ne : path ≠ "") :
    path.pieces = stem path ∨ path.pieces = stem path ++ [[]] := by
  rw [stem]
  split
  next open' =>
    right
    rcases List.eq_nil_or_concat path.toList with empty | ⟨front, last, ends⟩
    · exact absurd (String.toList_eq_nil_iff.mp empty) ne
    · have slash : last = '/' := by simpa [ends] using open'
      subst slash
      simp [pieces, ends, List.concat_eq_append, Text.splitAt_append_cons, Text.splitAt]
  next => exact .inl rfl

theorem isAbsolute_join {path : Path} (ne : path ≠ "") {name : String}
    (h : FileTree.IsName name) : (path.join name).isAbsolute = path.isAbsolute := by
  rw [join, isAbsolute_eq_false h]
  obtain ⟨c, rest, chars⟩ := List.exists_cons_of_ne_nil (mt String.toList_eq_nil_iff.mp ne)
  simp only [Bool.false_eq_true, if_false]
  split <;> simp [isAbsolute, chars]

theorem stem_join (path : Path) {name : String} (h : FileTree.IsName name) :
    stem (path.join name) = (path.join name).pieces := by
  obtain ⟨nonempty, -, -, noSlash⟩ := h
  have chars : name.toList ≠ [] := by simpa using nonempty
  have ends : ∃ front, (path.join name).toList = front ++ name.toList := by
    rw [join]
    split
    · exact ⟨[], rfl⟩
    · split
      · exact ⟨path.toList, String.toList_append⟩
      · exact ⟨path.toList ++ ['/'], by simp⟩
  obtain ⟨front, ends⟩ := ends
  have last : (path.join name).toList.getLast? ≠ some '/' := by
    intro slash
    rw [ends, List.getLast?_append_of_ne_nil _ chars] at slash
    exact noSlash (List.mem_of_getLast? slash)
  have filled : (path.join name).toList ≠ [] := by simp [ends, chars]
  rw [stem, if_neg (by simp [last, filled])]

def joinAll (path : Path) (names : List String) : Path := names.foldl join path

theorem pieces_joinAll (path : Path) {names : List String} (ne : names ≠ [])
    (h : ∀ name ∈ names, FileTree.IsName name) :
    (path.joinAll names).pieces = stem path ++ names.map String.toList := by
  induction names generalizing path with
  | nil => exact absurd rfl ne
  | cons name rest ih =>
    have first := h name List.mem_cons_self
    have step : path.joinAll (name :: rest) = (path.join name).joinAll rest := rfl
    by_cases last : rest = []
    · subst last
      exact pieces_join path first
    · rw [step, ih _ last fun name mem => h name (List.mem_cons_of_mem _ mem), stem_join path first,
        pieces_join path first]
      simp

theorem joinAll_inj (path : Path) {left right : List String} (neLeft : left ≠ [])
    (neRight : right ≠ []) (namesLeft : ∀ name ∈ left, FileTree.IsName name)
    (namesRight : ∀ name ∈ right, FileTree.IsName name)
    (same : path.joinAll left = path.joinAll right) : left = right := by
  have pieces := congrArg pieces same
  rw [pieces_joinAll path neLeft namesLeft, pieces_joinAll path neRight namesRight] at pieces
  have chars := List.append_cancel_left pieces
  exact List.map_injective_iff.mpr (fun _ _ => String.toList_inj.mp) chars

-- ---------------------------------------------------------------------------
-- File names
-- ---------------------------------------------------------------------------

theorem trimmed_prefix_self (pieces : List Text) : trimmed pieces <+: pieces := by
  rw [trimmed, ← List.reverse_suffix, List.reverse_reverse]
  exact List.dropWhile_suffix _

theorem trimmed_concat (pieces : List Text) {piece : Text} (step : isStep piece = true) :
    trimmed (pieces ++ [piece]) = pieces ++ [piece] := by
  simp [trimmed, step]

theorem trimmed_eq_nil_iff {pieces : List Text} :
    trimmed pieces = [] ↔ ∀ piece ∈ pieces, isStep piece = false := by
  simp [trimmed, List.dropWhile_eq_nil_iff]

theorem fileName?_of_pieces {path : Path} {front : List Text} {name : String}
    (isName : FileTree.IsName name) (pieces : path.pieces = front ++ [name.toList]) :
    path.fileName? = some name.toList := by
  have step := isName.isStep
  have up := isName.ne_up
  cases front with
  | nil => simp [fileName?, pieces, trimmed, step, up]
  | cons first front => simp [fileName?, pieces, trimmed_concat front step, step, up]

theorem fileName?_join (path : Path) {name : String} (isName : FileTree.IsName name) :
    (path.join name).fileName? = some name.toList :=
  fileName?_of_pieces isName (pieces_join path isName)

-- ---------------------------------------------------------------------------
-- Upwards
-- ---------------------------------------------------------------------------

/-- A path and those that steps up lead to, until there is none left. -/
inductive Climb : Path → List Path → Prop
  | top {path : Path} (_ : path.parent? = none) : Climb path [path]
  | up {path above : Path} {rest : List Path} (_ : path.parent? = some above)
      (_ : Climb above rest) : Climb path (path :: rest)

def height (path : Path) : Nat :=
  (trimmed path.pieces.tail).length + if path.pieces.head? = some [] then 0 else 1

theorem exists_pieces (path : Path) :
    ∃ first rest, path.pieces = first :: rest ∧ ∀ piece ∈ first :: rest, '/' ∉ piece := by
  obtain ⟨first, rest, split⟩ := List.exists_cons_of_ne_nil (Text.splitAt_ne_nil '/' path.toList)
  exact ⟨first, rest, split, fun piece mem => Text.not_mem_of_mem_splitAt (split ▸ mem)⟩

theorem pieces_ofPieces {pieces : List Text} (ne : pieces ≠ [])
    (h : ∀ piece ∈ pieces, '/' ∉ piece) : (ofPieces pieces).pieces = pieces := by
  simpa [ofPieces, Path.pieces] using Text.splitAt_joinWith ne h

theorem height_eq {path : Path} {first : Text} {rest : List Text}
    (pieces : path.pieces = first :: rest) :
    path.height = (trimmed rest).length + if first = [] then 0 else 1 := by
  simp [height, pieces]

theorem height_le (path : Path) : path.height ≤ path.pieces.length := by
  obtain ⟨first, rest, pieces, -⟩ := path.exists_pieces
  have shorter := (trimmed_prefix_self rest).length_le
  rw [height_eq pieces, pieces, List.length_cons]
  split <;> omega

theorem height_of_parent?_eq_none {path : Path} (top : path.parent? = none) : path.height = 0 := by
  obtain ⟨first, rest, pieces, -⟩ := path.exists_pieces
  simp only [parent?, pieces] at top
  split at top
  next flat =>
    split at top
    next empty =>
      rw [height_eq pieces, if_pos empty, List.reverse_eq_nil_iff.mp flat, List.length_nil]
    next => cases top
  next => split at top <;> cases top

theorem height_lt_of_parent? {path above : Path} (up : path.parent? = some above) :
    above.height < path.height := by
  obtain ⟨first, rest, pieces, noSlash⟩ := path.exists_pieces
  simp only [parent?, pieces] at up
  split at up
  next flat =>
    split at up
    next => cases up
    next nonempty =>
      cases up
      have bottom : height "" = 0 := by decide
      rw [bottom, height_eq pieces, if_neg nonempty]
      omega
  next last front steps =>
    have length : (trimmed rest).length = front.length + 1 := by
      rw [← List.length_reverse, steps, List.length_cons]
    split at up
    next =>
      cases up
      have root : height "/" = 0 := by decide
      rw [root, height_eq pieces]
      omega
    next =>
      cases up
      have inside : ∀ piece ∈ first :: trimmed front.reverse, '/' ∉ piece := by
        intro piece mem
        refine noSlash piece ?_
        rcases List.mem_cons.mp mem with rfl | mem
        · exact List.mem_cons_self
        · have mem : piece ∈ (trimmed rest).reverse := by
            rw [steps]
            exact List.mem_cons_of_mem _ (by simpa using (trimmed_prefix_self _).mem mem)
          exact List.mem_cons_of_mem _ ((trimmed_prefix_self _).mem (by simpa using mem))
      have shorter := (trimmed_prefix_self (trimmed front.reverse)).length_le
      have shorter' := (trimmed_prefix_self front.reverse).length_le
      rw [List.length_reverse] at shorter'
      rw [height_eq pieces, height_eq (pieces_ofPieces (by simp) inside)]
      omega

theorem climb_go {steps : Nat} {path : Path} (enough : path.height ≤ steps) :
    Climb path (ancestors.go steps path) := by
  induction steps generalizing path with
  | zero =>
    refine .top (Option.eq_none_iff_forall_ne_some.mpr fun above up => ?_)
    have := height_lt_of_parent? up
    omega
  | succ steps ih =>
    rw [ancestors.go]
    cases up : path.parent? with
    | none => exact .top up
    | some above =>
      have := height_lt_of_parent? up
      exact .up up (ih (by omega))

theorem climb_ancestors (path : Path) : Climb path path.ancestors := climb_go path.height_le

theorem pieces_of_parent?_eq_none {path : Path} (top : path.parent? = none) :
    (path = "" ∨ path.isAbsolute = true) ∧ ∀ piece ∈ path.pieces, isStep piece = false := by
  obtain ⟨first, rest, pieces, -⟩ := path.exists_pieces
  have flat := height_of_parent?_eq_none top
  rw [height_eq pieces] at flat
  have none : trimmed rest = [] := List.length_eq_zero_iff.mp (by omega)
  have empty : first = [] := by
    by_contra nonempty
    rw [if_neg nonempty] at flat
    omega
  subst empty
  constructor
  · cases chars : path.toList with
    | nil => exact .inl (String.toList_eq_nil_iff.mp chars)
    | cons c text =>
      right
      rw [Path.pieces, chars, Text.splitAt] at pieces
      split at pieces
      next slash => simp [isAbsolute, chars, slash]
      next => split at pieces <;> simp at pieces
  · rw [pieces]
    exact List.forall_mem_cons.mpr ⟨rfl, trimmed_eq_nil_iff.mp none⟩

end Path

namespace FileTree

theorem advance_of_forall_not_isStep {tree : FileTree} {followLast : Bool} {location : Location}
    (dir : tree.isDirectoryAt location = true) {pieces : List Text}
    (flat : ∀ piece ∈ pieces, Path.isStep piece = false) :
    tree.advance followLast location pieces = .ok (.arrived location) := by
  induction pieces with
  | nil => rfl
  | cons piece rest ih =>
    obtain ⟨first, later⟩ := List.forall_mem_cons.mp flat
    have stays : (piece = [] || piece = ['.']) = true := by
      simpa [Path.isStep, imp_iff_not_or] using first
    rw [advance, dir, if_neg (by simp), if_pos stays, ih later]

theorem exists_parent_of_isFile {tree : FileTree} {path : Path} (file : tree.isFile path = true) :
    ∃ above, path.parent? = some above := by
  by_contra orphan
  have top := Option.eq_none_iff_forall_ne_some.mpr fun above up => orphan ⟨above, up⟩
  have dir : tree.isDirectoryAt [] = true := by simp [isDirectoryAt, entry?_nil]
  obtain ⟨empty | absolute, flat⟩ := Path.pieces_of_parent?_eq_none top
  · simp [isFile, empty, locate, find, throw, throwThe, MonadExceptOf.throw] at file
  · have ne : path ≠ "" := by
      rintro rfl
      cases absolute
    have arrives : tree.locate path = .ok [] := by
      rw [locate, find, if_neg ne, absolute, if_pos rfl, travel,
        advance_of_forall_not_isStep dir flat]
      rfl
    simp [isFile, arrives, dir] at file

end FileTree

end Codemod
