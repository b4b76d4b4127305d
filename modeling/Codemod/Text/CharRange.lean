/-!
# Character ranges

A character property is a table of code point ranges in ascending order. The
order lets a look-up stop at the first range that starts beyond the character.
-/

namespace Codemod.Text

/-- First and last code point, both included. -/
abbrev CharRange := Nat × Nat

def inRanges (n : Nat) : List CharRange → Bool
  | [] => false
  | (low, high) :: rest => if n < low then false else n ≤ high || inRanges n rest

theorem exists_of_inRanges {n : Nat} {table : List CharRange} (found : inRanges n table = true) :
    ∃ range ∈ table, range.1 ≤ n ∧ n ≤ range.2 := by
  induction table with
  | nil => simp [inRanges] at found
  | cons range rest ih =>
    simp only [inRanges] at found
    split at found
    next => simp at found
    next low =>
      rcases Bool.or_eq_true_iff.mp found with high | later
      · exact ⟨range, List.mem_cons_self, Nat.le_of_not_lt low, of_decide_eq_true high⟩
      · obtain ⟨other, mem, inside⟩ := ih later
        exact ⟨other, List.mem_cons_of_mem _ mem, inside⟩

end Codemod.Text
