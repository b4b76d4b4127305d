/-!
# Byte offsets

A text is a list of characters, while edits speak of offsets into its UTF-8
form. `cut?` is the one place where the two meet: it divides a text at an
offset, and refuses an offset inside a character or beyond the end.
-/

namespace Codemod

abbrev Text := List Char

def byteSize : Text → Nat
  | [] => 0
  | c :: rest => c.utf8Size + byteSize rest

@[simp] theorem byteSize_nil : byteSize [] = 0 := rfl

@[simp] theorem byteSize_cons (c : Char) (rest : Text) :
    byteSize (c :: rest) = c.utf8Size + byteSize rest := rfl

@[simp] theorem byteSize_append (left right : Text) :
    byteSize (left ++ right) = byteSize left + byteSize right := by
  induction left with
  | nil => simp
  | cons c rest ih => simp [ih, Nat.add_assoc]

theorem byteSize_eq_zero {text : Text} : byteSize text = 0 ↔ text = [] := by
  cases text with
  | nil => simp
  | cons c rest =>
    have := c.utf8Size_pos
    simp only [byteSize_cons, reduceCtorEq, iff_false]
    omega

def cut? : Text → Nat → Option (Text × Text)
  | text, 0 => some ([], text)
  | [], _ + 1 => none
  | c :: rest, n + 1 =>
    if c.utf8Size ≤ n + 1 then
      (cut? rest (n + 1 - c.utf8Size)).map fun (before, after) => (c :: before, after)
    else none

theorem cut?_eq_some_iff {text before after : Text} {n : Nat} :
    cut? text n = some (before, after) ↔ text = before ++ after ∧ byteSize before = n := by
  induction text generalizing n before with
  | nil =>
    cases n with
    | zero =>
      simp only [cut?, Option.some.injEq, Prod.mk.injEq]
      constructor
      · rintro ⟨rfl, rfl⟩; simp
      · rintro ⟨h, size⟩
        have := byteSize_eq_zero.mp size
        subst this
        exact ⟨rfl, by simpa using h⟩
    | succ n =>
      simp only [cut?, reduceCtorEq, false_iff, not_and]
      intro h
      obtain ⟨rfl, rfl⟩ := List.append_eq_nil_iff.mp h.symm
      simp
  | cons c rest ih =>
    cases n with
    | zero =>
      simp only [cut?, Option.some.injEq, Prod.mk.injEq]
      constructor
      · rintro ⟨rfl, rfl⟩; simp
      · rintro ⟨h, size⟩
        have := byteSize_eq_zero.mp size
        subst this
        exact ⟨rfl, by simpa using h⟩
    | succ n =>
      simp only [cut?]
      split
      next fits =>
        simp only [Option.map_eq_some_iff, Prod.mk.injEq, Prod.exists]
        constructor
        · rintro ⟨inner, outer, found, rfl, rfl⟩
          obtain ⟨rfl, size⟩ := ih.mp found
          refine ⟨rfl, ?_⟩
          simp only [byteSize_cons, size]
          omega
        · rintro ⟨h, size⟩
          cases before with
          | nil => simp at size
          | cons d before =>
            obtain ⟨rfl, rfl⟩ := List.cons.inj h
            refine ⟨before, after, ih.mpr ⟨rfl, ?_⟩, rfl, rfl⟩
            simp only [byteSize_cons] at size
            omega
      next long =>
        simp only [reduceCtorEq, false_iff, not_and]
        intro h size
        cases before with
        | nil => simp at size
        | cons d before =>
          obtain ⟨rfl, _⟩ := List.cons.inj h
          simp only [byteSize_cons] at size
          omega

def isBoundary (text : Text) (n : Nat) : Bool := (cut? text n).isSome

theorem isBoundary_iff {text : Text} {n : Nat} :
    isBoundary text n = true ↔ ∃ before after, text = before ++ after ∧ byteSize before = n := by
  simp only [isBoundary, Option.isSome_iff_exists, Prod.exists, cut?_eq_some_iff]

def slice? (text : Text) (start stop : Nat) : Option Text := do
  guard (start ≤ stop)
  let (_, rest) ← cut? text start
  let (middle, _) ← cut? rest (stop - start)
  return middle

end Codemod
