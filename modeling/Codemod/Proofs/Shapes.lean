import Codemod.Proofs.Scanning
import Mathlib.Data.List.Basic
import Mathlib.Data.List.TakeWhile

/-!
# Shapes

A shape is found at the head of a text by going through it once, without a
choice and without going back. A rule that finds at every place what a shape
does (`Follows`) makes the edits of a scan for the shape from left to right
(`Follows.edits_eq`).
-/

namespace Codemod

-- ---------------------------------------------------------------------------
-- Going on in a text
-- ---------------------------------------------------------------------------

namespace Text

def skipBlanks (text : Text) : Text := text.dropWhile isWhiteSpace

def upTo (rest text : Text) : Text := text.take (text.length - rest.length)

theorem upTo_append (front rest : Text) : upTo rest (front ++ rest) = front := by
  simp [upTo]

theorem dropPrefix?_eq_some {text word rest : Text} :
    text.dropPrefix? word = some rest ↔ text = word ++ rest := by
  simp [List.dropPrefix?_eq_some_iff]

/-- No character of the kind stands at the head. -/
def Stops (kind : Char → Bool) (text : Text) : Prop := ∀ c ∈ text.head?, kind c = false

section

variable {kind : Char → Bool} {run rest : Text}

theorem stops_cons {c : Char} (other : kind c = false) : Stops kind (c :: rest) := by
  rintro _ ⟨⟩
  exact other

theorem takeWhile_append (all : ∀ c ∈ run, kind c = true) (stops : Stops kind rest) :
    (run ++ rest).takeWhile kind = run := by
  have none : rest.takeWhile kind = [] := by
    cases rest with
    | nil => rfl
    | cons c rest => exact List.takeWhile_cons_of_neg (by simp [stops c rfl])
  rw [List.takeWhile_append_of_pos all, none, List.append_nil]

theorem dropWhile_append (all : ∀ c ∈ run, kind c = true) (stops : Stops kind rest) :
    (run ++ rest).dropWhile kind = rest := by
  rw [List.dropWhile_append_of_pos all]
  cases rest with
  | nil => rfl
  | cons c rest => exact List.dropWhile_cons_of_neg (by simp [stops c rfl])

end

theorem skipBlanks_append {blank rest : Text} (isBlank : Blank blank)
    (stops : Stops isWhiteSpace rest) : skipBlanks (blank ++ rest) = rest :=
  dropWhile_append isBlank stops

theorem exists_blank (text : Text) : ∃ blank, Blank blank ∧ text = blank ++ skipBlanks text :=
  ⟨text.takeWhile isWhiteSpace, fun _ mem => List.mem_takeWhile_imp mem,
    List.takeWhile_append_dropWhile.symm⟩

end Text

-- ---------------------------------------------------------------------------
-- Shapes
-- ---------------------------------------------------------------------------

/-- What stands at the head of a text, and what is written in its place. -/
abbrev Shape := Text → Option (Text × Text)

namespace Shape

/-- Edits from a position on. `inside` counts the characters that still belong to what was found
last. -/
def editsFrom (shape : Shape) (label : String) : Nat → Nat → Text → List Edit
  | _, _, [] => []
  | offset, inside + 1, c :: rest => editsFrom shape label (offset + c.utf8Size) inside rest
  | offset, 0, c :: rest =>
    match shape (c :: rest) with
    | none => editsFrom shape label (offset + c.utf8Size) 0 rest
    | some (old, new) =>
      { start := offset, stop := offset + byteSize old, replacement := new,
        description := some label } ::
        editsFrom shape label (offset + c.utf8Size) (old.length - 1) rest

def edits (shape : Shape) (label : String) (source : Text) : List Edit :=
  shape.editsFrom label 0 0 source

end Shape

namespace Rule

/-- The rule finds at each place what the shape does, and changes it. -/
structure Follows (rule : Rule Pattern) (shape : Shape) : Prop where
  found (offset : Nat) (text : Text) : (rule.action.finder offset text).map (fun piece =>
    (piece.text, rule.action.replacement piece)) = shape text
  changes {text old new : Text} : shape text = some (old, new) → old ≠ [] ∧ new ≠ old

theorem follows_of_turns {rule : Rule Pattern} {shape : Shape} (solid : rule.Solid)
    (changes : ∀ {old new}, rule.Turns old new → new ≠ old)
    (complete : ∀ {offset after piece},
      rule.action.finder offset (piece.text ++ after) = some piece →
      shape (piece.text ++ after) = some (piece.text, rule.action.replacement piece))
    (sound : ∀ {text old new}, shape text = some (old, new) → old <+: text ∧ rule.Turns old new) :
    rule.Follows shape where
  found offset text := by
    cases found : rule.action.finder offset text with
    | none =>
      cases shaped : shape text with
      | none => rfl
      | some result =>
        obtain ⟨isPrefix, turn⟩ := sound shaped
        exact absurd isPrefix (not_turns_of_none solid found _ _ turn)
    | some piece =>
      obtain ⟨-, after, rfl⟩ := sound_finder rule.action found
      exact (complete found).symm
  changes shaped := by
    obtain ⟨-, turn⟩ := sound shaped
    exact ⟨fun empty => solid.not_turns_nil ⟨_, empty ▸ turn⟩, changes turn⟩

namespace Follows

variable {rule : Rule Pattern} {shape : Shape}

theorem map_editOf_piecesFrom (follows : rule.Follows shape) (offset inside : Nat) (touching : Bool)
    (text : Text) : (rule.action.finder.piecesFrom offset inside touching text).map rule.editOf =
      shape.editsFrom rule.name offset inside text := by
  fun_induction Shape.editsFrom shape rule.name offset inside text generalizing touching with
  | case1 offset inside =>
    have found := follows.found offset []
    cases none : rule.action.finder offset [] with
    | none => simp [Finder.piecesFrom, none]
    | some piece =>
      rw [none] at found
      obtain ⟨-, isPrefix⟩ := sound_finder rule.action none
      exact absurd (List.prefix_nil.mp isPrefix) (follows.changes found.symm).1
  | case2 offset inside c rest ih =>
    rw [Finder.piecesFrom]
    exact ih true
  | case3 offset c rest none ih =>
    have found := follows.found offset (c :: rest)
    rw [none, Option.map_eq_none_iff] at found
    rw [Finder.piecesFrom, found]
    exact ih false
  | case4 offset c rest old new shaped ih =>
    have found := follows.found offset (c :: rest)
    rw [shaped, Option.map_eq_some_iff] at found
    obtain ⟨piece, found, pair⟩ := found
    obtain ⟨rfl, rfl⟩ := Prod.mk.inj pair
    obtain ⟨d, more, letters⟩ := List.exists_cons_of_ne_nil (follows.changes shaped).1
    have edit : rule.editOf piece =
        ⟨offset, offset + byteSize piece.text, rule.action.replacement piece, some rule.name⟩ := by
      simp [editOf, Match.stop, (sound_finder rule.action found).1]
    have left : piece.text.length - 1 = more.length := by simp [letters]
    rw [left] at ih ⊢
    rw [Finder.piecesFrom, found, ← edit]
    simp only [letters, List.map_cons, ih true]

theorem edits_eq (follows : rule.Follows shape) (source : Text) :
    rule.edits source = shape.edits rule.name source := by
  have all : ∀ piece ∈ rule.action.pieces source,
      rule.action.replacement piece ≠ piece.text := by
    intro piece mem
    obtain ⟨offset, rest, found⟩ := find_of_mem_pieces mem
    have shaped := follows.found offset rest
    rw [found] at shaped
    exact (follows.changes shaped.symm).2
  rw [Rule.edits_eq, List.filter_eq_self.mpr (by simpa using all), pieces_eq_finder]
  exact follows.map_editOf_piecesFrom 0 0 false source

end Follows

end Rule

end Codemod
