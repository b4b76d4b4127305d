import Codemod.FileTree
import Mathlib.Data.List.Nodup

/-!
# File trees that stand for a file system

A tree is well formed if each location has one entry, and each entry has a
proper name and stands in a directory. In such a tree every path that leads
somewhere leads to a file or a directory.

Writing a file changes no other entry, and it changes no path: where a path
leads depends on the names, kinds and links of a tree, not on what its files
hold (`locate_eq`).
-/

namespace Codemod

namespace FileTree

-- ---------------------------------------------------------------------------
-- Bytes and texts
-- ---------------------------------------------------------------------------

theorem decode_eq_ok_iff {bytes : List UInt8} {text : Text} :
    decode bytes = .ok text ↔ bytes = encode text := by
  have encoded : (encode text).toByteArray = text.utf8Encode := rfl
  rw [decode, String.fromUTF8?]
  constructor
  · intro h
    split at h
    next found =>
      split at found
      next valid =>
        cases found
        cases h
        rw [← List.toByteArray_inj, encoded, String.utf8Encode_toList]
        rfl
      next => cases found
    next => cases h
  · rintro rfl
    have valid : (encode text).toByteArray.IsValidUTF8 := encoded ▸ ByteArray.isValidUTF8_utf8Encode
    have same : String.fromUTF8 (encode text).toByteArray valid = String.ofList text := by
      rw [← String.toByteArray_inj, String.toByteArray_ofList]
      rfl
    rw [dif_pos valid, same]
    simp [pure, Except.pure]

@[simp] theorem decode_encode (text : Text) : decode (encode text) = .ok text :=
  decode_eq_ok_iff.mpr rfl

theorem decode_eq_error {bytes : List UInt8} {cause : FileError}
    (h : decode bytes = .error cause) : cause = .notText := by
  rw [decode] at h
  split at h <;> cases h
  rfl

-- ---------------------------------------------------------------------------
-- Entries
-- ---------------------------------------------------------------------------

theorem entry?_nil (tree : FileTree) : tree.entry? [] = some .directory := rfl

theorem entry?_of_ne_nil (tree : FileTree) {location : Location} (ne : location ≠ []) :
    tree.entry? location = tree.entries.lookup location := by
  unfold entry?
  rw [if_neg ne]

theorem mem_entries {tree : FileTree} {location : Location} {entry : Entry} (ne : location ≠ [])
    (found : tree.entry? location = some entry) : (location, entry) ∈ tree.entries := by
  rw [tree.entry?_of_ne_nil ne] at found
  obtain ⟨before, after, split, -⟩ := List.lookup_eq_some_iff.mp found
  simp [split]

theorem lookup_overwrite (tree : FileTree) (location : Location) (bytes : List UInt8)
    (other : Location) :
    (tree.overwrite location bytes).entries.lookup other =
      if other = location then (tree.entries.lookup other).map fun _ => .file bytes
      else tree.entries.lookup other := by
  rw [overwrite]
  induction tree.entries with
  | nil => simp
  | cons head rest ih =>
    obtain ⟨place, entry⟩ := head
    have kept : (if place = location then (place, Entry.file bytes) else (place, entry)) =
        (place, if place = location then .file bytes else entry) := by split <;> rfl
    simp only [List.map_cons, kept, List.lookup_cons, ih]
    by_cases here : other = place
    · subst here
      by_cases written : other = location <;> simp [written]
    · simp [beq_eq_false_iff_ne.mpr here]

theorem entry?_overwrite {tree : FileTree} {location : Location} {old : List UInt8}
    (found : tree.entry? location = some (.file old)) (bytes : List UInt8) (other : Location) :
    FileTree.entry? (tree.overwrite location bytes) other =
      if other = location then some (.file bytes) else tree.entry? other := by
  by_cases top : other = []
  · subst top
    have apart : [] ≠ location := by
      rintro rfl
      simp [entry?_nil] at found
    simp [entry?_nil, apart]
  · rw [entry?_of_ne_nil _ top, entry?_of_ne_nil _ top, lookup_overwrite]
    split
    next here =>
      subst here
      rw [entry?_of_ne_nil _ top] at found
      simp [found]
    next => rfl

-- ---------------------------------------------------------------------------
-- Where paths lead
-- ---------------------------------------------------------------------------

def Entry.kind : Entry → Entry
  | .file _ => .file []
  | .directory => .directory
  | .link target => .link target

/-- What stands at a location, without what a file holds. -/
def kind? (tree : FileTree) (location : Location) : Option Entry :=
  Entry.kind <$> tree.entry? location

/-- The trees differ at most in what their files hold. -/
structure Alike (tree other : FileTree) : Prop where
  current : other.current = tree.current
  kinds : ∀ location, other.kind? location = tree.kind? location

namespace Alike

variable {tree other : FileTree}

theorem refl (tree : FileTree) : Alike tree tree := ⟨rfl, fun _ => rfl⟩

theorem trans {third : FileTree} (h : Alike tree other) (next : Alike other third) :
    Alike tree third :=
  ⟨next.current.trans h.current, fun location => (next.kinds location).trans (h.kinds location)⟩

theorem eq_or_files (h : Alike tree other) (location : Location) :
    other.entry? location = tree.entry? location ∨
    ∃ old new, tree.entry? location = some (.file old) ∧
      other.entry? location = some (.file new) := by
  have kinds := h.kinds location
  rw [kind?, kind?] at kinds
  cases left : tree.entry? location with
  | none => cases right : other.entry? location <;> simp_all
  | some a =>
    cases right : other.entry? location with
    | none => simp_all
    | some b => cases a <;> cases b <;> simp_all [Entry.kind]

theorem isDirectoryAt_eq (h : Alike tree other) (location : Location) :
    other.isDirectoryAt location = tree.isDirectoryAt location := by
  rcases h.eq_or_files location with same | ⟨old, new, before, after⟩
  · simp only [isDirectoryAt, same]
  · simp [isDirectoryAt, before, after]

theorem advance_eq (h : Alike tree other) (followLast : Bool) (location : Location)
    (pieces : List Text) :
    other.advance followLast location pieces = tree.advance followLast location pieces := by
  induction pieces generalizing location with
  | nil => rfl
  | cons piece rest ih =>
    rw [advance, advance]
    simp only [h.isDirectoryAt_eq, ih]
    rcases h.eq_or_files (location ++ [String.ofList piece]) with same | ⟨old, new, before, after⟩
    · simp only [same]
    · simp only [before, after]

theorem travel_eq (h : Alike tree other) (followLast : Bool) (links : Nat) (location : Location)
    (pieces : List Text) :
    other.travel followLast links location pieces =
      tree.travel followLast links location pieces := by
  induction links generalizing location pieces with
  | zero => rw [travel, travel, h.advance_eq]
  | succ links ih =>
    rw [travel, travel, h.advance_eq]
    simp only [ih]

theorem locate_eq (h : Alike tree other) (path : Path) : other.locate path = tree.locate path := by
  simp only [locate, find, h.travel_eq, h.current]

end Alike

theorem isDirectoryAt_of_advance {tree : FileTree} {followLast : Bool} {location : Location}
    {piece : Text} {rest : List Text} {lead : Lead}
    (h : tree.advance followLast location (piece :: rest) = .ok lead) :
    tree.isDirectoryAt location = true := by
  rw [advance] at h
  split at h
  next => cases h
  next dir => simpa using dir

theorem advance_cons_ok {tree : FileTree} {followLast : Bool} {location : Location} {piece : Text}
    {rest : List Text} {lead : Lead}
    (h : tree.advance followLast location (piece :: rest) = .ok lead) :
    (Path.isStep piece = false ∧ tree.advance followLast location rest = .ok lead) ∨
    (piece = ['.', '.'] ∧ tree.advance followLast location.dropLast rest = .ok lead) ∨
    (Path.isStep piece = true ∧ piece ≠ ['.', '.'] ∧
      ((∃ entry, tree.entry? (location ++ [String.ofList piece]) = some entry ∧
        (∀ target, entry ≠ .link target) ∧
        tree.advance followLast (location ++ [String.ofList piece]) rest = .ok lead) ∨
      (∃ target, tree.entry? (location ++ [String.ofList piece]) = some (.link target) ∧
        lead = if rest.isEmpty && !followLast then .arrived (location ++ [String.ofList piece])
          else .link location target rest))) := by
  rw [advance, isDirectoryAt_of_advance h] at h
  simp only [Bool.not_true, Bool.false_eq_true, if_false] at h
  split at h
  next stay => exact .inl ⟨by simpa [Path.isStep, imp_iff_not_or] using stay, h⟩
  next step =>
    split at h
    next up => exact .inr (.inl ⟨up, h⟩)
    next notUp =>
      refine .inr (.inr ⟨by simpa [Path.isStep] using step, notUp, ?_⟩)
      cases found : tree.entry? (location ++ [String.ofList piece]) with
      | none => simp [found] at h
      | some entry =>
        rw [found] at h
        cases entry with
        | directory => exact .inl ⟨_, rfl, by simp, h⟩
        | file bytes => exact .inl ⟨_, rfl, by simp, h⟩
        | link target =>
          refine .inr ⟨target, rfl, ?_⟩
          simp only at h
          split at h <;> cases h <;> simp_all

-- ---------------------------------------------------------------------------
-- Well-formed trees
-- ---------------------------------------------------------------------------

def IsName (name : String) : Prop :=
  name ≠ "" ∧ name ≠ "." ∧ name ≠ ".." ∧ '/' ∉ name.toList

instance (name : String) : Decidable (IsName name) := by
  unfold IsName
  infer_instance

theorem IsName.isStep {name : String} (h : IsName name) : Path.isStep name.toList = true := by
  obtain ⟨nonempty, notDot, -⟩ := h
  have notDot : name.toList ≠ ['.'] := fun same => notDot (String.toList_inj.mp same)
  simp [Path.isStep, nonempty, notDot]

theorem IsName.ne_up {name : String} (h : IsName name) : name.toList ≠ ['.', '.'] :=
  fun same => h.2.2.1 (String.toList_inj.mp same)

structure WellFormed (tree : FileTree) : Prop where
  unique : (tree.entries.map Prod.fst).Nodup
  /-- The top has no entry of its own. -/
  below : ∀ place ∈ tree.entries.map Prod.fst, place ≠ []
  named : ∀ place ∈ tree.entries.map Prod.fst, ∀ name ∈ place.getLast?, IsName name
  parent : ∀ place ∈ tree.entries.map Prod.fst, tree.isDirectoryAt place.dropLast = true

instance (tree : FileTree) : Decidable tree.WellFormed :=
  decidable_of_iff
    ((tree.entries.map Prod.fst).Nodup ∧ (∀ place ∈ tree.entries.map Prod.fst, place ≠ []) ∧
      (∀ place ∈ tree.entries.map Prod.fst, ∀ name ∈ place.getLast?, IsName name) ∧
      ∀ place ∈ tree.entries.map Prod.fst, tree.isDirectoryAt place.dropLast = true)
    ⟨fun ⟨unique, below, named, parent⟩ => ⟨unique, below, named, parent⟩,
      fun ⟨unique, below, named, parent⟩ => ⟨unique, below, named, parent⟩⟩

def Unlinked (tree : FileTree) : Prop := ∀ entry ∈ tree.entries, ∀ target, entry.2 ≠ .link target

theorem Unlinked.entry?_ne {tree : FileTree} (h : tree.Unlinked) (location : Location)
    (target : Path) : tree.entry? location ≠ some (.link target) := by
  intro found
  have ne : location ≠ [] := by
    rintro rfl
    simp [entry?_nil] at found
  exact h _ (mem_entries ne found) target rfl

def Stands (tree : FileTree) (location : Location) : Prop :=
  tree.entry? location = some .directory ∨ ∃ bytes, tree.entry? location = some (.file bytes)

theorem Stands.of_isDirectoryAt {tree : FileTree} {location : Location}
    (h : tree.isDirectoryAt location = true) : tree.Stands location :=
  .inl (by simpa [isDirectoryAt] using h)

theorem Stands.of_notLink {tree : FileTree} {location : Location} {entry : Entry}
    (found : tree.entry? location = some entry) (notLink : ∀ target, entry ≠ .link target) :
    tree.Stands location := by
  cases entry with
  | directory => exact .inl found
  | file bytes => exact .inr ⟨bytes, found⟩
  | link target => exact absurd rfl (notLink target)

/-- A lead that is not broken: it has arrived at something, or has met a link in a directory. -/
def Lead.Settled (tree : FileTree) : Lead → Prop
  | .arrived location => tree.Stands location
  | .link directory _ _ => tree.isDirectoryAt directory = true

namespace WellFormed

variable {tree : FileTree}

theorem isDirectoryAt_dropLast (wf : tree.WellFormed) {location : Location}
    (h : tree.isDirectoryAt location = true) : tree.isDirectoryAt location.dropLast = true := by
  by_cases top : location = []
  · subst top
    exact h
  · have found : tree.entry? location = some .directory := by simpa [isDirectoryAt] using h
    exact wf.parent location (List.mem_map_of_mem (mem_entries top found))

theorem advance_ok (wf : tree.WellFormed) {location : Location} {pieces : List Text} {lead : Lead}
    (ne : pieces ≠ []) (h : tree.advance true location pieces = .ok lead) : lead.Settled tree := by
  induction pieces generalizing location with
  | nil => exact absurd rfl ne
  | cons piece rest ih =>
    have dir : tree.isDirectoryAt location = true := isDirectoryAt_of_advance h
    have onward : ∀ next, tree.Stands next → tree.advance true next rest = .ok lead →
        lead.Settled tree := by
      intro next stands h
      by_cases last : rest = []
      · subst last
        cases h
        exact stands
      · exact ih last h
    rcases advance_cons_ok h with
      ⟨-, h⟩ | ⟨-, h⟩ | ⟨-, -, ⟨entry, found, notLink, h⟩ | ⟨target, -, h⟩⟩
    · exact onward _ (.of_isDirectoryAt dir) h
    · exact onward _ (.of_isDirectoryAt (wf.isDirectoryAt_dropLast dir)) h
    · exact onward _ (.of_notLink found notLink) h
    · simp only [Bool.not_true, Bool.and_false, Bool.false_eq_true, if_false] at h
      subst h
      exact dir

theorem travel_ok (wf : tree.WellFormed) {links : Nat} {location place : Location}
    {pieces : List Text} (ne : pieces ≠ [])
    (h : tree.travel true links location pieces = .ok place) : tree.Stands place := by
  induction links generalizing location pieces with
  | zero =>
    rw [travel] at h
    split at h
    next => cases h
    next arrived =>
      cases h
      exact wf.advance_ok ne arrived
    next => cases h
  | succ links ih =>
    rw [travel] at h
    split at h
    next => cases h
    next arrived =>
      cases h
      exact wf.advance_ok ne arrived
    next target rest _ =>
      simp only at h
      split at h
      next => cases h
      next =>
        have more : target.pieces ++ rest ≠ [] := by simp [Path.pieces, Text.splitAt_ne_nil]
        exact ih more h

theorem locate_ok (wf : tree.WellFormed) {path : Path} {location : Location}
    (h : tree.locate path = .ok location) : tree.Stands location := by
  rw [locate, find] at h
  split at h
  next => cases h
  next => exact wf.travel_ok (Text.splitAt_ne_nil _ _) h

end WellFormed

end FileTree

end Codemod
