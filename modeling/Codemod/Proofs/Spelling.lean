import Codemod.Proofs.Ways
import Codemod.RuleSet.Written
import Mathlib.Data.List.Basic
import Mathlib.Data.List.TakeDrop

/-!
# Reading what is written

`Spells` says which texts stand for which parts of a pattern: a text with its
marks escaped stands for itself, `\s*` for blanks, and so on. The reader takes
what is spelled like that for a pattern that matches in the same ways
(`read?_of_spells`). Whatever an escaped text holds, none of it is taken for a
mark, or for a repetition of what stands before it.
-/

namespace Codemod

namespace Way

@[simp] theorem rest_andThen (first second : Way) : (first.andThen second).rest = second.rest := rfl

theorem andThen_assoc (first second third : Way) :
    (first.andThen second).andThen third = first.andThen (second.andThen third) := by
  simp [andThen]

end Way

namespace Pattern

-- ---------------------------------------------------------------------------
-- Ways of parts in order
-- ---------------------------------------------------------------------------

theorem inTurn_assoc (first second third : Text → List Way) :
    inTurn (inTurn first second) third = inTurn first (inTurn second third) := by
  funext text
  have same (first second : Way) :
      (first.andThen second).andThen = first.andThen ∘ second.andThen :=
    funext (first.andThen_assoc second)
  simp [inTurn, List.flatMap_assoc, List.flatMap_map, List.map_flatMap, same]

theorem nothing_inTurn (later : Text → List Way) :
    inTurn (fun text => [.nothing text]) later = later := inTurn_roundsWays_zero later later

theorem inTurn_nothing (first : Text → List Way) :
    inTurn first (fun text => [.nothing text]) = first := by
  funext text
  simp [inTurn, Way.nothing, Way.andThen]

theorem ways_seq (first second : Pattern) :
    (seq first second).ways = inTurn first.ways second.ways := by
  funext text
  rw [ways]

theorem ways_inOrder_cons (first : Pattern) (rest : List Pattern) :
    (inOrder (first :: rest)).ways = inTurn first.ways (inOrder rest).ways := ways_seq _ _

theorem ways_inOrder_seq (first second : Pattern) (rest : List Pattern) :
    (inOrder (seq first second :: rest)).ways = (inOrder (first :: second :: rest)).ways := by
  rw [ways_inOrder_cons, ways_inOrder_cons, ways_inOrder_cons, ways_seq, inTurn_assoc]

theorem ways_inOrder_literal (c : Char) (word : Text) (rest : List Pattern) :
    (inOrder (literal (c :: word) :: rest)).ways =
      inTurn (one (.single c)).ways (inOrder (literal word :: rest)).ways := by
  have split : literal (c :: word) = seq (one (.single c)) (literal word) := rfl
  rw [split, ways_inOrder_seq, ways_inOrder_cons]

theorem ways_one_congr {cls cls' : CharClass} (same : ∀ c, cls.has c = cls'.has c) :
    (one cls).ways = (one cls').ways := by
  funext text
  cases text with
  | nil => rfl
  | cons c rest => rw [ways, ways, same]

theorem ways_rep_congr {body body' : Pattern} (same : body.ways = body'.ways) (low : Nat)
    (high : Option Nat) (greedy : Bool) :
    (rep body low high greedy).ways = (rep body' low high greedy).ways := by
  funext text
  cases high <;> rw [ways, ways, same]

theorem ways_group_congr {body body' : Pattern} (same : body.ways = body'.ways) (index : Nat) :
    (group index body).ways = (group index body').ways := by
  funext text
  rw [ways, ways, same]

theorem matchAt_congr {pattern pattern' : Pattern} (plain : pattern.Plain) (plain' : pattern'.Plain)
    (same : pattern.ways = pattern'.ways) : pattern.matchAt = pattern'.matchAt := by
  funext offset rest
  rw [matchAt_eq_head? plain, matchAt_eq_head? plain', same]

-- ---------------------------------------------------------------------------
-- Spellings
-- ---------------------------------------------------------------------------

/-- What a text stands for, if `opened` groups have been opened before it and `opened'` behind
it. -/
inductive Spells : (opened : Nat) → Text → List Pattern → (opened' : Nat) → Prop
  | done (opened : Nat) : Spells opened [] [] opened
  | verbatim {opened opened' : Nat} {rest : Text} {parts : List Pattern} (word : Text) :
      Spells opened rest parts opened' →
      Spells opened (escape word ++ rest) (literal word :: parts) opened'
  | single {opened opened' : Nat} {rest : Text} {parts : List Pattern} (c : Char) :
      Spells opened rest parts opened' →
      Spells opened (escape [c] ++ rest) (one (.single c) :: parts) opened'
  | blanks {opened opened' : Nat} {rest : Text} {parts : List Pattern} :
      Spells opened rest parts opened' →
      Spells opened ("\\s*".toList ++ rest) (anyNumber .space :: parts) opened'
  | insideBraces {opened opened' : Nat} {rest : Text} {parts : List Pattern} :
      Spells opened rest parts opened' →
      Spells opened ("[^\x7d]*".toList ++ rest) (EnumRules.insideBraces :: parts) opened'
  | parameter {opened opened' : Nat} {rest : Text} {parts : List Pattern} :
      Spells (opened + 1) rest parts opened' →
      Spells opened ("(\\w+)".toList ++ rest) (CallbackRules.parameter (opened + 1) :: parts) opened'
  | lineEnd {opened opened' : Nat} {rest : Text} {parts : List Pattern} :
      Spells opened rest parts opened' →
      Spells opened ("(?:\\r?\\n)?".toList ++ rest) (optional EnumRules.lineEnd :: parts) opened'

def Unrepeated (text : Text) : Prop := ∀ c ∈ text.head?, c ∉ ['*', '+', '?', '{']

theorem escape_cons (c : Char) (word : Text) : escape (c :: word) = escape [c] ++ escape word := by
  simp [escape]

theorem escape_mark {c : Char} (mark : c ∈ marks) : escape [c] = ['\\', c] := by
  simp [escape, mark]

def Unmarked (text : Text) : Prop := ∀ c ∈ text, c ∉ marks

instance Unmarked.decidable (text : Text) : Decidable (Unmarked text) :=
  List.decidableBAll (fun c => c ∉ marks) text

theorem escape_eq_self {text : Text} (plain : Unmarked text) : escape text = text := by
  have alone : ∀ c ∈ text, (if c ∈ marks then ['\\', c] else [c]) = [c] := fun c mem =>
    if_neg (plain c mem)
  rw [escape, List.flatMap_congr alone, List.flatMap_singleton']

theorem exists_head_escape (c : Char) :
    ∃ d word, escape [c] = d :: word ∧ d ∉ [')', '|', '*', '+', '?', '{'] := by
  by_cases mark : c ∈ marks
  · exact ⟨'\\', [c], by simp [escape, mark], by decide⟩
  · have all : ∀ d ∈ [')', '|', '*', '+', '?', '{'], d ∈ marks := by simp [marks]
    exact ⟨c, [], by simp [escape, mark], fun mem => mark (all c mem)⟩

theorem unrepeated_escape (c : Char) (rest : Text) : Unrepeated (escape [c] ++ rest) := by
  obtain ⟨d, word, split, head⟩ := exists_head_escape c
  rw [split]
  rintro _ ⟨⟩ repeats
  exact head (List.mem_cons_of_mem _ (List.mem_cons_of_mem _ repeats))

theorem Spells.unrepeated {opened opened' : Nat} {text : Text} {parts : List Pattern}
    (spells : Spells opened text parts opened') : Unrepeated text := by
  induction spells with
  | done => simp [Unrepeated]
  | verbatim word _ ih =>
    cases word with
    | nil => exact ih
    | cons c word =>
      rw [escape_cons, List.append_assoc]
      exact unrepeated_escape c _
  | single c _ _ => exact unrepeated_escape c _
  | blanks | insideBraces | parameter | lineEnd => simp [Unrepeated]

-- ---------------------------------------------------------------------------
-- The reader
-- ---------------------------------------------------------------------------

namespace Reader

variable {n opened : Nat} {names : List (Text × Nat)} {rest : Text}

def repeated (n : Nat) : Reading Pattern := do repetitions n (← item n)

theorem items_succ {c : Char} (notEnd : c ≠ ')' ∧ c ≠ '|') :
    (items (n + 1)).run ⟨c :: rest, opened, names⟩ =
      ((repeated n).run ⟨c :: rest, opened, names⟩).bind fun (first, state) =>
        ((items n).run state).map fun (later, state) => (.seq first later, state) := by
  rw [items]
  simp [peek, repeated, notEnd, Option.bind_assoc]

theorem repetitions_of_unrepeated (pattern : Pattern) (unrepeated : Unrepeated rest) :
    (repetitions n pattern).run ⟨rest, opened, names⟩ = some (pattern, ⟨rest, opened, names⟩) := by
  cases n with
  | zero => rfl
  | succ n =>
    cases rest with
    | nil => rfl
    | cons c rest =>
      have none : c ∉ ['*', '+', '?', '{'] := unrepeated c rfl
      simp only [List.mem_cons, List.not_mem_nil, or_false, not_or] at none
      simp [repetitions, peek, none]

theorem accept_of_unrepeated (unrepeated : Unrepeated rest) :
    (accept '?').run ⟨rest, opened, names⟩ = some (false, ⟨rest, opened, names⟩) := by
  cases rest with
  | nil => rfl
  | cons c rest =>
    have ne : '?' ≠ c := by
      rintro rfl
      exact absurd (by decide) (unrepeated '?' rfl)
    simp [accept, ne]

theorem repetitions_star (pattern : Pattern) (unrepeated : Unrepeated rest) :
    (repetitions (n + 1) pattern).run ⟨'*' :: rest, opened, names⟩ =
      some (.rep pattern 0 none true, ⟨rest, opened, names⟩) := by
  simp [repetitions, peek, next, accept_of_unrepeated unrepeated,
    repetitions_of_unrepeated _ unrepeated]

theorem repetitions_question (pattern : Pattern) (unrepeated : Unrepeated rest) :
    (repetitions (n + 1) pattern).run ⟨'?' :: rest, opened, names⟩ =
      some (optional pattern, ⟨rest, opened, names⟩) := by
  simp [repetitions, peek, next, accept_of_unrepeated unrepeated,
    repetitions_of_unrepeated _ unrepeated, optional]

theorem item_escape (c : Char) :
    (item (n + 1)).run ⟨escape [c] ++ rest, opened, names⟩ =
      some (one (.single c), ⟨rest, opened, names⟩) := by
  by_cases mark : c ∈ marks
  · have read : (item (n + 1)).run ⟨'\\' :: c :: rest, opened, names⟩ =
        some (one (.single c), ⟨rest, opened, names⟩) := by
      simp only [marks, List.mem_cons, List.not_mem_nil, or_false] at mark
      rcases mark with rfl | rfl | rfl | rfl | rfl | rfl | rfl | rfl | rfl | rfl | rfl | rfl |
        rfl | rfl | rfl | rfl | rfl | rfl <;> rfl
    simpa [escape, mark] using read
  · have plain : escape [c] ++ rest = c :: rest := by simp [escape, mark]
    simp only [marks, List.mem_cons, List.not_mem_nil, or_false, not_or] at mark
    rw [plain]
    simp [item, next, mark]

theorem run_repeated {state middle last : State} {first pattern : Pattern}
    (read : (item n).run state = some (first, middle))
    (again : (repetitions n first).run middle = some (pattern, last)) :
    (repeated n).run state = some (pattern, last) := by
  simp [repeated, read, again]

/-- The reader takes the word, in front of the rest, for one item with its repetitions. It matches
like the part. -/
def TakesFor (opened : Nat) (word rest : Text) (part : Pattern) (opened' : Nat) : Prop :=
  ∀ n names, 3 * word.length ≤ n → ∃ pattern,
    (repeated n).run ⟨word ++ rest, opened, names⟩ = some (pattern, ⟨rest, opened', names⟩) ∧
      pattern.Plain ∧ pattern.ways = part.ways

theorem takesFor_escape (c : Char) (unrepeated : Unrepeated rest) :
    TakesFor opened (escape [c]) rest (one (.single c)) opened := by
  intro n names bound
  have positive : 1 ≤ (escape [c]).length := by
    by_cases mark : c ∈ marks <;> simp [escape, mark]
  obtain ⟨n, rfl⟩ := Nat.exists_eq_add_of_le' (by omega : 1 ≤ n)
  exact ⟨one (.single c),
    run_repeated (item_escape c) (repetitions_of_unrepeated _ unrepeated), .one _, rfl⟩

theorem takesFor_blanks (unrepeated : Unrepeated rest) :
    TakesFor opened "\\s*".toList rest (anyNumber .space) opened := by
  intro n names bound
  obtain ⟨n, rfl⟩ := Nat.exists_eq_add_of_le' (by simp at bound; omega : 1 ≤ n)
  have read : (item (n + 1)).run ⟨['\\', 's'] ++ '*' :: rest, opened, names⟩ =
      some (one .space, ⟨'*' :: rest, opened, names⟩) := rfl
  exact ⟨anyNumber .space, run_repeated read (repetitions_star _ unrepeated), .anyNumber _ true,
    rfl⟩

theorem takesFor_insideBraces (unrepeated : Unrepeated rest) :
    TakesFor opened "[^\x7d]*".toList rest EnumRules.insideBraces opened := by
  intro n names bound
  obtain ⟨n, rfl⟩ := Nat.exists_eq_add_of_le' (by simp at bound; omega : 1 ≤ n)
  have read : (item (n + 1)).run ⟨['[', '^', '}', ']'] ++ '*' :: rest, opened, names⟩ =
      some (one (.not (.anyOf [.single '}'])), ⟨'*' :: rest, opened, names⟩) := rfl
  refine ⟨_, run_repeated read (repetitions_star _ unrepeated), .anyNumber _ true, ?_⟩
  exact ways_rep_congr (ways_one_congr fun c => by simp [CharClass.has, CharClass.anyOf]) ..

theorem takesFor_parameter (unrepeated : Unrepeated rest) :
    TakesFor opened "(\\w+)".toList rest (CallbackRules.parameter (opened + 1)) (opened + 1) := by
  intro n names bound
  obtain ⟨n, rfl⟩ := Nat.exists_eq_add_of_le' (by simp at bound; omega : 8 ≤ n)
  have read : (item (n + 8)).run ⟨['(', '\\', 'w', '+', ')'] ++ rest, opened, names⟩ =
      some (group (opened + 1) (inOrder [atLeastOne .word]), ⟨rest, opened + 1, names⟩) := rfl
  refine ⟨_, run_repeated read (repetitions_of_unrepeated _ unrepeated),
    .group _ (.seq (.atLeastOne _ true) .empty), ways_group_congr ?_ _⟩
  rw [ways_inOrder_cons]
  exact inTurn_nothing _

theorem takesFor_lineEnd (unrepeated : Unrepeated rest) :
    TakesFor opened "(?:\\r?\\n)?".toList rest (optional EnumRules.lineEnd) opened := by
  intro n names bound
  obtain ⟨n, rfl⟩ := Nat.exists_eq_add_of_le' (by simp at bound; omega : 8 ≤ n)
  have read : (item (n + 8)).run
      ⟨['(', '?', ':', '\\', 'r', '?', '\\', 'n', ')'] ++ '?' :: rest, opened, names⟩ =
        some (inOrder [optional (one (.single '\r')), one (.single '\n')],
          ⟨'?' :: rest, opened, names⟩) := rfl
  refine ⟨_, run_repeated read (repetitions_question _ unrepeated),
    .optional _ (.seq (.optional _ (.one _)) (.seq (.one _) .empty)), ways_rep_congr ?_ ..⟩
  rw [ways_inOrder_cons, ways_inOrder_cons, EnumRules.lineEnd, ways_seq]
  exact congrArg _ (inTurn_nothing _)

def TakesAllFor (opened : Nat) (text : Text) (parts : List Pattern) (opened' : Nat) : Prop :=
  ∀ n names, 3 * text.length < n → ∃ pattern,
    (items n).run ⟨text, opened, names⟩ = some (pattern, ⟨[], opened', names⟩) ∧
      pattern.Plain ∧ pattern.ways = (inOrder parts).ways

theorem TakesFor.cons {opened middle opened' : Nat} {c : Char} {word rest : Text} {part : Pattern}
    {parts : List Pattern} (notEnd : c ≠ ')' ∧ c ≠ '|')
    (first : TakesFor opened (c :: word) rest part middle)
    (later : TakesAllFor middle rest parts opened') :
    TakesAllFor opened (c :: word ++ rest) (part :: parts) opened' := by
  intro n names bound
  simp only [List.length_append, List.length_cons] at bound
  obtain ⟨n, rfl⟩ := Nat.exists_eq_add_of_le' (by omega : 1 ≤ n)
  obtain ⟨pattern, read, plain, same⟩ := first n names (by simp only [List.length_cons]; omega)
  obtain ⟨pattern', read', plain', same'⟩ := later n names (by omega)
  refine ⟨.seq pattern pattern', ?_, .seq plain plain', ?_⟩
  · rw [List.cons_append, items_succ notEnd, ← List.cons_append, read]
    simp [read']
  · rw [ways_seq, ways_inOrder_cons, same, same']

theorem TakesAllFor.congr {opened' : Nat} {text : Text} {parts parts' : List Pattern}
    (takes : TakesAllFor opened text parts opened')
    (same : (inOrder parts).ways = (inOrder parts').ways) :
    TakesAllFor opened text parts' opened' := by
  rw [TakesAllFor, ← same]
  exact takes

theorem takesAllFor_escape {opened' : Nat} {parts : List Pattern} (c : Char)
    (unrepeated : Unrepeated rest) (later : TakesAllFor opened rest parts opened') :
    TakesAllFor opened (escape [c] ++ rest) (one (.single c) :: parts) opened' := by
  obtain ⟨d, word, split, head⟩ := exists_head_escape c
  have first : TakesFor opened (escape [c]) rest _ _ := takesFor_escape c unrepeated
  rw [split] at first ⊢
  refine first.cons ⟨?_, ?_⟩ later
  all_goals
    rintro rfl
    exact absurd (by decide) head

end Reader

open Reader

theorem Spells.takesAllFor {opened opened' : Nat} {text : Text} {parts : List Pattern}
    (spells : Spells opened text parts opened') : TakesAllFor opened text parts opened' := by
  induction spells with
  | done opened =>
    intro n names bound
    obtain ⟨n, rfl⟩ := Nat.exists_eq_add_of_le' (Nat.succ_le_of_lt bound)
    exact ⟨.empty, by simp [items, peek], .empty, rfl⟩
  | @verbatim opened opened' rest parts word tail ih =>
    induction word with
    | nil => exact ih.congr (by rw [ways_inOrder_cons]; exact (nothing_inTurn _).symm)
    | cons c word inner =>
      have unrepeated : Unrepeated (escape word ++ rest) := (tail.verbatim word).unrepeated
      have split := ways_inOrder_literal c word parts
      rw [← ways_inOrder_cons] at split
      rw [escape_cons, List.append_assoc]
      exact (takesAllFor_escape c unrepeated inner).congr split.symm
  | single c tail ih => exact takesAllFor_escape c tail.unrepeated ih
  | blanks tail ih => exact (takesFor_blanks tail.unrepeated).cons (by decide) ih
  | insideBraces tail ih => exact (takesFor_insideBraces tail.unrepeated).cons (by decide) ih
  | parameter tail ih => exact (takesFor_parameter tail.unrepeated).cons (by decide) ih
  | lineEnd tail ih => exact (takesFor_lineEnd tail.unrepeated).cons (by decide) ih

/-- What is spelled out is read as a pattern that matches in the same ways. -/
theorem read?_of_spells {opened : Nat} {text : Text} {parts : List Pattern}
    (spells : Spells 0 text parts opened) : ∃ pattern,
      Pattern.read? text = some { pattern } ∧ pattern.Plain ∧
        pattern.ways = (inOrder parts).ways := by
  obtain ⟨pattern, read, plain, same⟩ := spells.takesAllFor (3 * text.length + 2) [] (by omega)
  refine ⟨pattern, ?_, plain, same⟩
  simp [Pattern.read?, alternatives, read, accept]

end Pattern

-- ---------------------------------------------------------------------------
-- Templates
-- ---------------------------------------------------------------------------

namespace Template

/-- What is written like that comes out as the parts, one after the other. -/
def Writes (text : Text) (form : Template) : Prop :=
  ∀ n, text.length ≤ n → (readFrom [] n text).expand = form.expand

theorem expand_cons (part : Part) (rest : Template) (m : Match) :
    expand (part :: rest) m = expand [part] m ++ expand rest m := by
  simp [expand]

theorem writes_nil : Writes [] [] := by
  intro n _
  cases n <;> rfl

theorem Writes.verbatim {rest : Text} {form : Template} (later : Writes rest form) (word : Text) :
    Writes (escape word ++ rest) (.text word :: form) := by
  induction word with
  | nil => exact later
  | cons c word ih =>
    intro n bound
    funext m
    have whole : expand (.text (c :: word) :: form) m = c :: expand (.text word :: form) m := by
      simp [expand]
    by_cases dollar : c = '$'
    · have split : escape (c :: word) ++ rest = '$' :: '$' :: (escape word ++ rest) := by
        simp [escape, dollar]
      rw [split, List.length_cons, List.length_cons] at bound
      obtain ⟨n, rfl⟩ := Nat.exists_eq_add_of_le' (by omega : 1 ≤ n)
      rw [split, readFrom, expand_cons, ih n (by omega), whole, dollar]
      rfl
    · have split : escape (c :: word) ++ rest = c :: (escape word ++ rest) := by
        simp [escape, dollar]
      rw [split, List.length_cons] at bound
      obtain ⟨n, rfl⟩ := Nat.exists_eq_add_of_le' (by omega : 1 ≤ n)
      rw [split, readFrom, expand_cons, ih n (by omega), whole]
      · rfl
      all_goals simp [dollar]

theorem Writes.reference {rest : Text} {form : Template} (later : Writes rest form) {name : Text}
    (closed : '}' ∉ name) :
    Writes ('$' :: '{' :: (name ++ '}' :: rest)) (Template.reference [] name :: form) := by
  intro n bound
  funext m
  have all : ∀ c ∈ name, (c != '}') = true := fun c mem => by
    simpa using fun same : c = '}' => closed (same ▸ mem)
  have span : (name ++ '}' :: rest).span (· != '}') = (name, '}' :: rest) := by
    simp [List.span_eq_takeWhile_dropWhile, List.takeWhile_append_of_pos all,
      List.dropWhile_append_of_pos all]
  simp only [List.length_cons, List.length_append] at bound
  obtain ⟨n, rfl⟩ := Nat.exists_eq_add_of_le' (by omega : 1 ≤ n)
  rw [readFrom, span, expand_cons, later n (by omega), ← expand_cons]

@[simp] theorem escape_append (first second : Text) :
    escape (first ++ second) = escape first ++ escape second := List.flatMap_append

theorem escape_eq_self {text : Text} (plain : '$' ∉ text) : escape text = text := by
  have alone : ∀ c ∈ text, (if c = '$' then ['$', '$'] else [c]) = [c] := fun c mem =>
    if_neg fun dollar : c = '$' => plain (dollar ▸ mem)
  rw [escape, List.flatMap_congr alone, List.flatMap_singleton']

end Template

end Codemod
