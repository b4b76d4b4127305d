import Codemod.Proofs.Replacing
import Codemod.Proofs.Ways

/-!
# What a scan leaves behind

A scan goes through a text from left to right and turns some pieces of it into
others; what it does not turn, it keeps. `Scanned` says so without offsets and
bookkeeping, and every rule is such a scan (`Rule.scanned_rewrite`).

The question of this module is what stands in the result that did not stand in
the text. A piece of the result may lie across the seam between kept text and
a replacement, or start inside a replacement; if neither can be, it was there
before (`Scanned.origin`). `Clear` is the overlap test behind most of these
facts.
-/

namespace Codemod

/-- `result` is `text` with pieces turned from left to right. A character is kept only where no
piece starts. -/
inductive Scanned (turns : Text → Text → Prop) : (text result : Text) → Prop
  | nil : Scanned turns [] []
  | keep {c : Char} {rest result : Text}
      (none : ∀ old new, turns old new → ¬ old <+: c :: rest)
      (tail : Scanned turns rest result) : Scanned turns (c :: rest) (c :: result)
  | swap {old new rest result : Text} (piece : turns old new)
      (tail : Scanned turns rest result) : Scanned turns (old ++ rest) (new ++ result)

/-- Some piece of the text is in the language. -/
def Text.Holds (language : Text → Prop) (text : Text) : Prop :=
  ∃ piece, language piece ∧ piece <:+: text

def Text.Blank (text : Text) : Prop := ∀ c ∈ text, Text.isWhiteSpace c = true

/-- A strict order of texts in which a text goes further as soon as a part of it does. -/
structure Text.Onward (further : Text → Text → Prop) : Prop where
  irrefl (text : Text) : ¬ further text text
  trans {first second third : Text} :
    further first second → further second third → further first third
  part {old new : Text} (front back : Text) :
    further old new → further (front ++ old ++ back) (front ++ new ++ back)

theorem append_cons_inj {front front' back back' : Text} {c c' : Char}
    (same : front ++ c :: back = front' ++ c' :: back') (absent : c ∉ front')
    (absent' : c' ∉ front) : front = front' ∧ c = c' ∧ back = back' := by
  rcases List.append_eq_append_iff.mp same with ⟨more, rfl, split⟩ | ⟨more, rfl, split⟩
  · cases more with
    | nil => simpa using split
    | cons d more =>
      obtain ⟨rfl, -⟩ := List.cons.inj split
      simp at absent
  · cases more with
    | nil => simpa [eq_comm] using split
    | cons d more =>
      obtain ⟨rfl, -⟩ := List.cons.inj split
      simp at absent'

theorem infix_append_cons {piece front back : Text} {c : Char} (absent : c ∉ piece)
    (stands : piece <:+: front ++ c :: back) : piece <:+: front ∨ piece <:+: back := by
  obtain ⟨before, after, same⟩ := stands
  rcases List.append_eq_append_iff.mp same with ⟨more, rfl, -⟩ | ⟨more, split, rest⟩
  · exact .inl ⟨before, more, rfl⟩
  · cases more with
    | nil => exact .inl ⟨before, [], by simpa using split⟩
    | cons d more =>
      obtain ⟨rfl, rfl⟩ := List.cons.inj rest
      rcases List.append_eq_append_iff.mp split with ⟨inner, rfl, rfl⟩ | ⟨inner, -, stop⟩
      · simp at absent
      · cases inner with
        | nil =>
          obtain rfl : piece = c :: more := by simpa using stop.symm
          simp at absent
        | cons e inner =>
          obtain ⟨rfl, rfl⟩ := List.cons.inj stop
          exact .inr ⟨inner, after, rfl⟩

theorem suffix_append_cases {start left right : Text} (suffix : start <:+ left ++ right) :
    start <:+ right ∨ ∃ tail, tail ≠ [] ∧ tail <:+ left ∧ start = tail ++ right := by
  obtain ⟨before, split⟩ := suffix
  rcases List.append_eq_append_iff.mp split with ⟨tail, rfl, rfl⟩ | ⟨tail, rfl, rfl⟩
  · by_cases empty : tail = []
    · exact .inl (empty ▸ List.suffix_rfl)
    · exact .inr ⟨tail, empty, List.suffix_append before tail, rfl⟩
  · exact .inl (List.suffix_append tail start)

namespace Scanned

variable {turns : Text → Text → Prop} {language : Text → Prop} {text result : Text}

theorem prefix_cases (scanned : Scanned turns text result) {piece : Text}
    (isPrefix : piece <+: result) :
    piece <+: text ∨ ∃ front back old new after later, piece = front ++ back ∧ back ≠ [] ∧
      text = front ++ old ++ after ∧ turns old new ∧ back <+: new ++ later := by
  induction scanned generalizing piece with
  | nil => exact .inl isPrefix
  | @keep c rest result none tail ih =>
    rcases List.prefix_cons_iff.mp isPrefix with rfl | ⟨more, rfl, inner⟩
    · exact .inl List.nil_prefix
    · rcases ih inner with stands | ⟨front, back, old, new, after, later, rfl, ne, rfl, turn, into⟩
      · exact .inl (List.cons_prefix_cons.mpr ⟨rfl, stands⟩)
      · exact .inr ⟨c :: front, back, old, new, after, later, rfl, ne, rfl, turn, into⟩
  | @swap old new rest result turn tail ih =>
    by_cases empty : piece = []
    · exact .inl (empty ▸ List.nil_prefix)
    · exact .inr ⟨[], piece, old, new, rest, result, rfl, empty, rfl, turn, isPrefix⟩

/-- Where a piece of the result comes from: it stood in the text where the scan turned nothing, or
it starts inside a replacement. -/
inductive Origin (turns : Text → Text → Prop) (language : Text → Prop) (text : Text) : Prop
  | kept {piece rest : Text} (mem : language piece) (start : piece <+: rest)
      (suffix : rest <:+ text) (none : ∀ old new, turns old new → ¬ old <+: rest)
  | inside {piece old new tail later : Text} (mem : language piece) (turn : turns old new)
      (place : old <:+: text) (ne : tail ≠ []) (suffix : tail <:+ new)
      (start : piece <+: tail ++ later)

theorem Origin.of_suffix {rest : Text} (origin : Origin turns language rest)
    (suffix : rest <:+ text) : Origin turns language text := by
  cases origin with
  | kept mem start inner none => exact .kept mem start (inner.trans suffix) none
  | inside mem turn place ne inner start =>
    exact .inside mem turn (place.trans suffix.isInfix) ne inner start

theorem origin (scanned : Scanned turns text result) (nonempty : ¬ language [])
    (across : ∀ front back old new after later, front ≠ [] → back ≠ [] → language (front ++ back) →
      turns old new → front ++ old ++ after <:+ text → ¬ back <+: new ++ later)
    (holds : Text.Holds language result) : Origin turns language text := by
  obtain ⟨piece, mem, stands⟩ := holds
  have ne : piece ≠ [] := fun empty => nonempty (empty ▸ mem)
  induction scanned with
  | nil => exact absurd (List.infix_nil.mp stands) ne
  | @keep c rest result none tail ih =>
    rcases List.infix_cons_iff.mp stands with first | later
    · obtain ⟨d, more, rfl⟩ := List.exists_cons_of_ne_nil ne
      obtain ⟨rfl, inner⟩ := List.cons_prefix_cons.mp first
      rcases tail.prefix_cases inner with
        same | ⟨front, back, old, new, after, later, rfl, ne, rfl, turn, into⟩
      · exact .kept mem (List.cons_prefix_cons.mpr ⟨rfl, same⟩) List.suffix_rfl none
      · exact absurd into (across (d :: front) back old new after later (by simp) ne mem turn
          List.suffix_rfl)
    · have suffix : rest <:+ c :: rest := List.suffix_cons c rest
      refine (ih ?_ later).of_suffix suffix
      exact fun front back old new after later ne ne' mem turn inner =>
        across front back old new after later ne ne' mem turn (inner.trans suffix)
  | @swap old new rest result turn tail ih =>
    have suffix : rest <:+ old ++ rest := List.suffix_append old rest
    obtain ⟨start, first, place⟩ := List.infix_iff_prefix_suffix.mp stands
    rcases suffix_append_cases place with later | ⟨ending, ne', inner, rfl⟩
    · refine (ih ?_ (first.isInfix.trans later.isInfix)).of_suffix suffix
      exact fun front back old new after later ne ne' mem turn inner =>
        across front back old new after later ne ne' mem turn (inner.trans suffix)
    · exact .inside mem turn List.infix_append_left ne' inner first

end Scanned

/-- No part at the end of `text` starts like `word`, or the other way round. -/
def Clear (word : Text) : Text → Prop
  | [] => True
  | c :: rest => (¬ c :: rest <+: word ∧ ¬ word <+: c :: rest) ∧ Clear word rest

instance Clear.decidable (word : Text) : (text : Text) → Decidable (Clear word text)
  | [] => .isTrue trivial
  | c :: rest =>
    have := Clear.decidable word rest
    inferInstanceAs (Decidable ((¬ c :: rest <+: word ∧ ¬ word <+: c :: rest) ∧ Clear word rest))

namespace Clear

variable {word text : Text}

theorem of_suffix (clear : Clear word text) {tail : Text} (suffix : tail <:+ text) :
    Clear word tail := by
  induction text with
  | nil => rw [List.suffix_nil.mp suffix]; exact clear
  | cons c rest ih =>
    rcases List.suffix_cons_iff.mp suffix with rfl | later
    · exact clear
    · exact ih clear.2 later

theorem not_prefix_append (clear : Clear word text) {tail : Text} (ne : tail ≠ [])
    (suffix : tail <:+ text) (later : Text) : ¬ tail <+: word ++ later := by
  intro isPrefix
  obtain ⟨c, more, rfl⟩ := List.exists_cons_of_ne_nil ne
  have apart := (clear.of_suffix suffix).1
  rcases List.prefix_or_prefix_of_prefix isPrefix (List.prefix_append word later) with h | h
  · exact apart.1 h
  · exact apart.2 h

theorem not_prefix_append' (clear : Clear word text) {tail : Text} (ne : tail ≠ [])
    (suffix : tail <:+ text) (later : Text) : ¬ word <+: tail ++ later := by
  intro isPrefix
  obtain ⟨c, more, rfl⟩ := List.exists_cons_of_ne_nil ne
  have apart := (clear.of_suffix suffix).1
  rcases List.prefix_or_prefix_of_prefix isPrefix (List.prefix_append (c :: more) later) with h | h
  · exact apart.2 h
  · exact apart.1 h

theorem of_forall (apart : ∀ tail, tail ≠ [] → tail <:+ text → ¬ tail <+: word ∧ ¬ word <+: tail) :
    Clear word text := by
  induction text with
  | nil => trivial
  | cons c rest ih =>
    refine ⟨apart (c :: rest) (by simp) List.suffix_rfl, ih fun tail ne suffix => ?_⟩
    exact apart tail ne (suffix.trans (List.suffix_cons c rest))

theorem append_right (clear : Clear word text) (more : Text) : Clear (word ++ more) text := by
  refine of_forall fun tail ne suffix => ⟨clear.not_prefix_append ne suffix more, ?_⟩
  intro isPrefix
  have whole : word <+: tail ++ [] := by simpa using (List.prefix_append word more).trans isPrefix
  exact clear.not_prefix_append' ne suffix [] whole

theorem of_last {front : Text} {last missing : Char} (absent : last ∉ word) (mem : missing ∈ word)
    (lacks : missing ∉ front ++ [last]) : Clear word (front ++ [last]) := by
  refine of_forall fun tail ne suffix => ⟨fun isPrefix => ?_, fun isPrefix => ?_⟩
  · rcases List.suffix_concat_iff.mp suffix with rfl | ⟨inner, rfl, -⟩
    · exact ne rfl
    · exact absent (isPrefix.mem (by simp))
  · exact lacks (suffix.mem (isPrefix.mem mem))

theorem append_left {first : Char} {more front : Text} (clear : Clear (first :: more) text)
    (absent : first ∉ front) : Clear (first :: more) (front ++ text) := by
  induction front with
  | nil => exact clear
  | cons c rest ih =>
    have ne : c ≠ first := fun same => absent (same ▸ List.mem_cons_self)
    refine ⟨⟨?_, ?_⟩, ih fun mem => absent (List.mem_cons_of_mem _ mem)⟩
    · exact fun isPrefix => ne (List.cons_prefix_cons.mp isPrefix).1
    · exact fun isPrefix => ne (List.cons_prefix_cons.mp isPrefix).1.symm

theorem of_not_mem {first : Char} {more : Text} (absent : first ∉ text) :
    Clear (first :: more) text := by
  have none : Clear (first :: more) [] := trivial
  simpa using none.append_left absent

end Clear

namespace Scanned

variable {turns : Text → Text → Prop} {text result : Text}

theorem of_append {front back : Text} (scanned : Scanned turns text (front ++ back))
    (clear : ∀ old new, turns old new → Clear new front) :
    ∃ rest, text = front ++ rest ∧ Scanned turns rest back := by
  induction front generalizing text with
  | nil => exact ⟨text, rfl, scanned⟩
  | cons c front ih =>
    generalize whole : c :: front ++ back = result at scanned
    cases scanned with
    | nil => cases whole
    | @keep d rest result none tail =>
      obtain ⟨rfl, rfl⟩ := List.cons.inj whole
      obtain ⟨rest, rfl, scanned⟩ := ih tail fun old new turn => (clear old new turn).2
      exact ⟨rest, rfl, scanned⟩
    | @swap old new rest result turn tail =>
      have isPrefix : c :: front <+: new ++ result := ⟨back, whole⟩
      have apart := (clear old new turn).not_prefix_append (by simp) List.suffix_rfl result
      exact absurd isPrefix apart

/-- A word that overlaps with no replacement cuts the scan in two. -/
theorem of_append_word {front word back : Text}
    (scanned : Scanned turns text (front ++ word ++ back)) (ne : word ≠ [])
    (clear : ∀ old new, turns old new → Clear new word ∧ Clear word new) :
    ∃ start rest, text = start ++ word ++ rest ∧ Scanned turns rest back := by
  generalize whole : front ++ word ++ back = result at scanned
  induction scanned generalizing front with
  | nil => simp [ne] at whole
  | @keep c rest result none tail ih =>
    cases front with
    | nil =>
      have scanned : Scanned turns (c :: rest) (word ++ back) := by
        have first : word ++ back = c :: result := by simpa using whole
        exact first ▸ .keep none tail
      obtain ⟨rest, split, scanned⟩ := scanned.of_append fun old new turn => (clear old new turn).1
      exact ⟨[], rest, by simpa using split, scanned⟩
    | cons d front =>
      obtain ⟨rfl, rfl⟩ := List.cons.inj whole
      obtain ⟨start, rest, rfl, scanned⟩ := ih rfl
      exact ⟨d :: start, rest, rfl, scanned⟩
  | @swap old new rest result turn tail ih =>
    rw [List.append_assoc] at whole
    rcases List.append_eq_append_iff.mp whole with ⟨more, rfl, split⟩ | ⟨more, rfl, split⟩
    · by_cases empty : more = []
      · subst empty
        have behind : [] ++ word ++ back = result := by simpa using split
        obtain ⟨start, rest, rfl, scanned⟩ := ih behind
        exact ⟨old ++ start, rest, by simp, scanned⟩
      · -- the word would start inside the replacement
        have isPrefix : word <+: more ++ result := ⟨back, split⟩
        have suffix : more <:+ front ++ more := List.suffix_append front more
        exact absurd isPrefix ((clear old _ turn).2.not_prefix_append' empty suffix result)
    · have behind : more ++ word ++ back = result := by simpa using split.symm
      obtain ⟨start, rest, rfl, scanned⟩ := ih behind
      exact ⟨old ++ start, rest, by simp, scanned⟩

theorem of_append_cons {front back : Text} {c : Char}
    (scanned : Scanned turns text (front ++ c :: back)) (absent : c ∉ front)
    (free : ∀ old new, turns old new → c ∉ old ∧ c ∉ new) :
    ∃ start rest, text = start ++ c :: rest ∧ c ∉ start ∧ Scanned turns start front ∧
      Scanned turns rest back := by
  generalize whole : front ++ c :: back = result at scanned
  induction scanned generalizing front with
  | nil => simp at whole
  | @keep d rest result none tail ih =>
    cases front with
    | nil =>
      obtain ⟨rfl, rfl⟩ := List.cons.inj whole
      exact ⟨[], rest, rfl, by simp, .nil, tail⟩
    | cons e front =>
      obtain ⟨rfl, rfl⟩ := List.cons.inj whole
      have ne : c ≠ e := fun same => absent (same ▸ List.mem_cons_self)
      obtain ⟨start, rest, rfl, absent, first, second⟩ :=
        ih (fun mem => absent (List.mem_cons_of_mem _ mem)) rfl
      refine ⟨e :: start, rest, rfl, by simp [ne, absent], .keep ?_ first, second⟩
      intro old new turn isPrefix
      exact none old new turn (isPrefix.trans (List.prefix_append (e :: start) (c :: rest)))
  | @swap old new rest result turn tail ih =>
    obtain ⟨notOld, notNew⟩ := free old new turn
    obtain ⟨more, rfl, rest⟩ : ∃ more, front = new ++ more ∧ more ++ c :: back = result := by
      rcases List.append_eq_append_iff.mp whole with ⟨inner, rfl, split⟩ | ⟨more, rfl, split⟩
      · cases inner with
        | nil => exact ⟨[], by simp, by simpa using split⟩
        | cons d inner =>
          obtain ⟨rfl, -⟩ := List.cons.inj split
          exact absurd (List.mem_append_right _ List.mem_cons_self) notNew
      · exact ⟨more, rfl, split.symm⟩
    obtain ⟨start, rest, rfl, absent, first, second⟩ :=
      ih (fun mem => absent (List.mem_append_right _ mem)) rest
    refine ⟨old ++ start, rest, by simp, ?_, .swap turn first, second⟩
    simp [notOld, absent]

theorem eq_self (scanned : Scanned turns text result)
    (none : ∀ old new, turns old new → ¬ old <:+: text) : result = text := by
  induction scanned with
  | nil => rfl
  | @keep c rest result _ tail ih =>
    rw [ih fun old new turn stands => none old new turn (List.infix_cons stands)]
  | @swap old new rest result turn tail ih =>
    exact absurd List.infix_append_left (none old new turn)

theorem eq_of_once {c : Char} {stem name value tail new result : Text}
    (scanned : Scanned turns (stem ++ (name ++ c :: value) ++ tail) result)
    (turn : turns (name ++ c :: value) new)
    (only : ∀ {old other}, turns old other → old = name ++ c :: value ∧ other = new)
    (before : c ∉ stem ++ name) (after : c ∉ tail) : result = stem ++ new ++ tail := by
  generalize whole : stem ++ (name ++ c :: value) ++ tail = text at scanned
  induction scanned generalizing stem with
  | nil => simp at whole
  | @keep d rest result none rest' ih =>
    cases stem with
    | nil => exact absurd ⟨tail, by simpa using whole⟩ (none _ _ turn)
    | cons e stem =>
      obtain ⟨rfl, rfl⟩ := List.cons.inj whole
      rw [ih (fun mem => before (List.mem_cons_of_mem _ mem)) rfl]
      rfl
  | @swap old other rest result found rest' ih =>
    obtain ⟨rfl, rfl⟩ := only found
    have same : (stem ++ name) ++ c :: (value ++ tail) = name ++ c :: (value ++ rest) := by
      simpa using whole
    obtain ⟨first, -, last⟩ := append_cons_inj same (fun mem => before (by simp [mem])) before
    obtain rfl : stem = [] := by simpa using first
    obtain rfl : tail = rest := by simpa using last
    have idle : result = tail := rest'.eq_self fun old other found stands => by
      obtain ⟨rfl, -⟩ := only found
      exact after (stands.mem (by simp))
    simp [idle]

theorem eq_or_further {further : Text → Text → Prop} (onward : Text.Onward further)
    (scanned : Scanned turns text result) (solid : ∀ new, ¬ turns [] new)
    (advances : ∀ old new, turns old new → further old new) :
    (result = text ∧ ∀ old new, turns old new → ¬ old <:+: text) ∨ further text result := by
  induction scanned with
  | nil =>
    exact .inl ⟨rfl, fun old new turn isInfix => solid new (List.infix_nil.mp isInfix ▸ turn)⟩
  | @keep c rest result none tail ih =>
    rcases ih with ⟨rfl, absent⟩ | later
    · refine .inl ⟨rfl, fun old new turn isInfix => ?_⟩
      rcases List.infix_cons_iff.mp isInfix with first | later
      · exact none old new turn first
      · exact absent old new turn later
    · right
      simpa using onward.part [c] [] later
  | @swap old new rest result turn tail ih =>
    right
    have first : further (old ++ rest) (new ++ rest) := onward.part [] rest (advances old new turn)
    rcases ih with ⟨rfl, -⟩ | later
    · exact first
    · have second : further (new ++ rest) (new ++ result) := by
        simpa using onward.part new [] later
      exact onward.trans first second

end Scanned

-- ---------------------------------------------------------------------------
-- Rules
-- ---------------------------------------------------------------------------

namespace Finder

theorem scanned_replaceFrom {find : Finder} {render : Match → Text} {turns : Text → Text → Prop}
    (sound : ∀ offset rest piece, find offset rest = some piece →
      piece.text ≠ [] ∧ piece.text <+: rest ∧ turns piece.text (render piece))
    (complete : ∀ offset rest, find offset rest = none → ∀ old new, turns old new → ¬ old <+: rest)
    (offset : Nat) (touching : Bool) (text : Text) :
    Scanned turns text (find.replaceFrom render offset touching text) := by
  fun_induction replaceFrom find render offset touching text with
  | case1 offset touching none => exact .nil
  | case2 offset piece found =>
    obtain ⟨ne, isPrefix, -⟩ := sound _ _ _ found
    exact absurd (List.prefix_nil.mp isPrefix) ne
  | case3 offset touching piece found apart =>
    obtain ⟨ne, isPrefix, -⟩ := sound _ _ _ found
    exact absurd (List.prefix_nil.mp isPrefix) ne
  | case4 offset touching c rest none ih => exact .keep (complete _ _ none) ih
  | case5 offset touching c rest piece found empty ih => exact absurd empty (sound _ _ _ found).1
  | case6 offset touching c rest piece found nonempty ih =>
    obtain ⟨-, ⟨after, split⟩, turn⟩ := sound _ _ _ found
    obtain ⟨d, more, text⟩ := List.exists_cons_of_ne_nil nonempty
    have drop : rest.drop (piece.text.length - 1) = after := by
      rw [text, List.cons_append] at split
      obtain ⟨rfl, rfl⟩ := List.cons.inj split
      simp [text]
    rw [drop] at ih ⊢
    rw [← split]
    exact .swap turn ih

theorem find_of_mem_piecesFrom {find : Finder} {offset inside : Nat} {touching : Bool} {text : Text}
    {piece : Match} (mem : piece ∈ find.piecesFrom offset inside touching text) :
    ∃ offset rest, find offset rest = some piece := by
  fun_induction piecesFrom find offset inside touching text with
  | _ => grind

end Finder

namespace Rule

def Action.finder : Action Pattern → Finder
  | substitute needle _ => .ofText needle
  | reshape pattern _ => .ofPattern pattern

theorem pieces_eq_finder (action : Action Pattern) : action.pieces = action.finder.pieces := by
  cases action <;> rfl

theorem sound_finder (action : Action Pattern) : action.finder.Sound := by
  cases action with
  | substitute needle _ => exact Finder.sound_ofText needle
  | reshape pattern _ => exact Finder.sound_ofPattern pattern

theorem find_of_mem_pieces {action : Action Pattern} {text : Text} {piece : Match}
    (mem : piece ∈ action.pieces text) :
    ∃ offset rest, action.finder offset rest = some piece := by
  rw [pieces_eq_finder] at mem
  exact Finder.find_of_mem_piecesFrom mem

theorem replaceFrom_finder (rule : Rule Pattern) (text : Text) :
    rule.action.finder.replaceFrom rule.action.replacement 0 false text = rule.rewrite text := by
  have scanned := (Finder.placed_pieces (sound_finder rule.action) rule.action.replacement
    text).replacePieces_eq [] rfl
  rw [← scanned, ← pieces_eq_finder, (rule.placed_pieces text).replacePieces_eq [] rfl]

/-- The rule replaces `old` by `new` where it finds it. -/
def Turns (rule : Rule Pattern) (old new : Text) : Prop :=
  match rule.action with
  | .substitute needle replacement => needle ≠ [] ∧ old = needle ∧ new = replacement
  | .reshape pattern template =>
    ∃ groups, pattern.Reads old groups ∧ new = template.expand { start := 0, text := old, groups }

/-- The pattern of the rule, if it has one, is plain and takes something. -/
def Solid (rule : Rule Pattern) : Prop :=
  match rule.action with
  | .substitute _ _ => True
  | .reshape pattern _ => pattern.Plain ∧ ∀ groups, ¬ pattern.Reads [] groups

theorem Solid.not_turns_nil {rule : Rule Pattern} (solid : rule.Solid) :
    ¬ ∃ new, rule.Turns [] new := by
  obtain ⟨name, action⟩ := rule
  rintro ⟨new, turn⟩
  cases action with
  | substitute needle replacement => exact turn.1 turn.2.1.symm
  | reshape pattern template =>
    obtain ⟨groups, reads, -⟩ := turn
    exact solid.2 groups reads

/-- The rule finds nothing in the text. -/
def Idle (rule : Rule Pattern) (text : Text) : Prop :=
  ¬ Text.Holds (fun old => ∃ new, rule.Turns old new) text

theorem turns_of_found {rule : Rule Pattern} (solid : rule.Solid) {offset : Nat} {rest : Text}
    {piece : Match} (found : rule.action.finder offset rest = some piece) :
    piece.text ≠ [] ∧ rule.Turns piece.text (rule.action.replacement piece) := by
  obtain ⟨name, action⟩ := rule
  cases action with
  | substitute needle replacement =>
    simp only [Action.finder, Finder.ofText] at found
    split at found
    next stands =>
      cases found
      simp only [Bool.and_eq_true, decide_eq_true_eq] at stands
      exact ⟨stands.1, stands.1, rfl, rfl⟩
    next => cases found
  | reshape pattern template =>
    have reads := Pattern.reads_of_matchAt solid.1 found
    exact ⟨fun empty => solid.2 piece.groups (empty ▸ reads), piece.groups, reads, rfl⟩

theorem not_turns_of_none {rule : Rule Pattern} (solid : rule.Solid) {offset : Nat} {rest : Text}
    (none : rule.action.finder offset rest = none) :
    ∀ old new, rule.Turns old new → ¬ old <+: rest := by
  obtain ⟨name, action⟩ := rule
  intro old new turn isPrefix
  cases action with
  | substitute needle replacement =>
    obtain ⟨ne, rfl, rfl⟩ := turn
    simp [Action.finder, Finder.ofText, ne, isPrefix] at none
  | reshape pattern template =>
    obtain ⟨groups, reads, rfl⟩ := turn
    exact (Pattern.matchAt_eq_none_iff solid.1).mp none old groups reads isPrefix

theorem scanned_rewrite {rule : Rule Pattern} (solid : rule.Solid) (text : Text) :
    Scanned rule.Turns text (rule.rewrite text) := by
  rw [← replaceFrom_finder]
  refine Finder.scanned_replaceFrom ?_ (fun _ _ none => not_turns_of_none solid none) 0 false text
  intro offset rest piece found
  obtain ⟨ne, turn⟩ := turns_of_found solid found
  exact ⟨ne, (sound_finder rule.action found).2, turn⟩

theorem edits_eq_nil_of_idle {rule : Rule Pattern} (solid : rule.Solid) {text : Text}
    (idle : rule.Idle text) : rule.edits text = [] := by
  have none : rule.action.pieces text = [] := by
    refine List.eq_nil_iff_forall_not_mem.mpr fun piece mem => ?_
    obtain ⟨before, after, rfl, -⟩ := (rule.placed_pieces text).place mem
    obtain ⟨offset, rest, found⟩ := find_of_mem_pieces mem
    exact idle ⟨piece.text, ⟨_, (turns_of_found solid found).2⟩, List.infix_append ..⟩
  simp [edits, none]

theorem rewrite_of_idle {rule : Rule Pattern} (solid : rule.Solid) {text : Text}
    (idle : rule.Idle text) : rule.rewrite text = text := rewrite_eq_self (edits_eq_nil_of_idle solid idle)

structure Advances (further : Text → Text → Prop) (rule : Rule Pattern) : Prop where
  solid : rule.Solid
  turn {old new : Text} : rule.Turns old new → further old new

theorem Advances.idle_or_further {further : Text → Text → Prop} {rule : Rule Pattern}
    (advances : rule.Advances further) (onward : Text.Onward further) (text : Text) :
    rule.Idle text ∨ further text (rule.rewrite text) := by
  have scanned := scanned_rewrite advances.solid text
  have solid : ∀ new, ¬ rule.Turns [] new :=
    fun new turn => advances.solid.not_turns_nil ⟨new, turn⟩
  refine (scanned.eq_or_further onward solid fun old new => advances.turn).imp ?_ id
  rintro ⟨-, absent⟩ ⟨old, ⟨new, turn⟩, stands⟩
  exact absent old new turn stands

theorem Advances.idle_iff_edits_eq_nil {further : Text → Text → Prop} {rule : Rule Pattern}
    (advances : rule.Advances further) (onward : Text.Onward further) {text : Text} :
    rule.Idle text ↔ rule.edits text = [] := by
  refine ⟨edits_eq_nil_of_idle advances.solid, fun none => ?_⟩
  rcases advances.idle_or_further onward text with idle | moved
  · exact idle
  · rw [rewrite_eq_self none] at moved
    exact absurd moved (onward.irrefl text)

/-- No piece that `other` finds reaches into what `rule` writes, or starts inside it. -/
structure Apart (rule other : Rule Pattern) : Prop where
  across {front back result old new later : Text} : front ≠ [] → back ≠ [] →
    other.Turns (front ++ back) result → rule.Turns old new → ¬ back <+: new ++ later
  inside {piece result old new tail later : Text} : other.Turns piece result →
    rule.Turns old new → tail ≠ [] → tail <:+ new → ¬ piece <+: tail ++ later

theorem Apart.of_clear {rule other : Rule Pattern}
    (clear : ∀ {piece result old new}, other.Turns piece result → rule.Turns old new →
      Clear new piece ∧ Clear piece new) : Apart rule other where
  across {front back _ _ _ later} _ ne found turn :=
    (clear found turn).1.not_prefix_append ne (List.suffix_append front back) later
  inside found turn ne suffix := (clear found turn).2.not_prefix_append' ne suffix _

/-- What `other` finds after `rule`, it finds before, at a place that `rule` leaves alone. -/
theorem Apart.kept {rule other : Rule Pattern} (apart : Apart rule other) (solid : rule.Solid)
    (solid' : other.Solid) {text : Text} (busy : ¬ other.Idle (rule.rewrite text)) :
    ∃ piece rest, (∃ new, other.Turns piece new) ∧ piece <+: rest ∧ rest <:+ text ∧
      ∀ old new, rule.Turns old new → ¬ old <+: rest := by
  have across : ∀ front back old new after later, front ≠ [] → back ≠ [] →
      (∃ result, other.Turns (front ++ back) result) → rule.Turns old new →
      front ++ old ++ after <:+ text → ¬ back <+: new ++ later :=
    fun _ _ _ _ _ _ ne ne' ⟨_, found⟩ turn _ => apart.across ne ne' found turn
  cases (scanned_rewrite solid text).origin solid'.not_turns_nil across (not_not.mp busy) with
  | kept mem start suffix none => exact ⟨_, _, mem, start, suffix, none⟩
  | inside mem turn place ne suffix start =>
    obtain ⟨result, found⟩ := mem
    exact absurd start (apart.inside found turn ne suffix)

theorem Apart.idle {rule other : Rule Pattern} (apart : Apart rule other) (solid : rule.Solid)
    (solid' : other.Solid) {text : Text} (idle : other.Idle text) :
    other.Idle (rule.rewrite text) := by
  by_contra busy
  obtain ⟨piece, rest, found, start, suffix, -⟩ := apart.kept solid solid' busy
  exact idle ⟨piece, found, start.isInfix.trans suffix.isInfix⟩

theorem Apart.idle_self {rule : Rule Pattern} (apart : Apart rule rule) (solid : rule.Solid)
    (text : Text) : rule.Idle (rule.rewrite text) := by
  by_contra busy
  obtain ⟨piece, rest, ⟨new, found⟩, start, -, none⟩ := apart.kept solid solid busy
  exact none piece new found start

end Rule

namespace RuleGroup

theorem rewritten_of_idle {rules : List (Rule Pattern)} {text : Text}
    (solid : ∀ rule ∈ rules, rule.Solid) (idle : ∀ rule ∈ rules, rule.Idle text) :
    rewritten rules text = text := by
  induction rules with
  | nil => rfl
  | cons rule rest ih =>
    simp only [List.forall_mem_cons] at solid idle
    rw [rewritten_cons, Rule.rewrite_of_idle solid.1 idle.1, ih solid.2 idle.2]

theorem rewritten_induction (property : Text → Prop) {rules : List (Rule Pattern)}
    (keeps : ∀ rule ∈ rules, ∀ text, property text → property (rule.rewrite text)) {text : Text}
    (start : property text) : property (rewritten rules text) := by
  induction rules generalizing text with
  | nil => exact start
  | cons rule rest ih =>
    simp only [List.forall_mem_cons] at keeps
    exact ih keeps.2 (keeps.1 text start)

/-- If each rule settles itself and starts no other, nothing is left to find after the last. -/
theorem idle_rewritten_of {rules : List (Rule Pattern)} (invariant : Text → Prop)
    (keeps : ∀ rule ∈ rules, ∀ text, invariant text → invariant (rule.rewrite text))
    (settles : ∀ rule ∈ rules, ∀ text, invariant text → rule.Idle (rule.rewrite text))
    (spares : ∀ rule ∈ rules, ∀ other ∈ rules, ∀ text, invariant text → other.Idle text →
      other.Idle (rule.rewrite text)) {text : Text} (start : invariant text) :
    ∀ rule ∈ rules, rule.Idle (rewritten rules text) := by
  induction rules generalizing text with
  | nil => simp
  | cons rule rest ih =>
    simp only [List.forall_mem_cons] at keeps settles spares ⊢
    constructor
    · refine (rewritten_induction (fun text => invariant text ∧ rule.Idle text) ?_
        ⟨keeps.1 text start, settles.1 text start⟩).2
      intro other mem text h
      exact ⟨keeps.2 other mem text h.1, (spares.2 other mem).1 text h.1 h.2⟩
    · exact ih keeps.2 settles.2 (fun rule mem => (spares.2 rule mem).2) (keeps.1 text start)

theorem idle_rewritten {rules : List (Rule Pattern)} (solid : ∀ rule ∈ rules, rule.Solid)
    (apart : ∀ rule ∈ rules, ∀ other ∈ rules, Rule.Apart rule other) (text : Text) :
    ∀ rule ∈ rules, rule.Idle (rewritten rules text) := by
  refine idle_rewritten_of (fun _ => True) (fun _ _ _ _ => trivial) ?_ ?_ trivial
  · exact fun rule mem text _ => (apart rule mem rule mem).idle_self (solid rule mem) text
  · exact fun rule mem other mem' text _ idle =>
      (apart rule mem other mem').idle (solid rule mem) (solid other mem') idle

/-- Rules that only go forward never make up for one another: the text is further on after them,
unless none of them finds anything in it. -/
theorem idle_or_further {further : Text → Text → Prop} (onward : Text.Onward further)
    {rules : List (Rule Pattern)} (advances : ∀ rule ∈ rules, rule.Advances further) (text : Text) :
    (∀ rule ∈ rules, rule.Idle text) ∨ further text (rewritten rules text) := by
  induction rules generalizing text with
  | nil => simp
  | cons rule rest ih =>
    simp only [List.forall_mem_cons, rewritten_cons] at advances ⊢
    rcases advances.1.idle_or_further onward text with idle | first
    · rw [Rule.rewrite_of_idle advances.1.solid idle]
      exact (ih advances.2 text).imp (fun others => ⟨idle, others⟩) id
    · right
      rcases ih advances.2 (rule.rewrite text) with others | later
      · rwa [rewritten_of_idle (fun rule mem => (advances.2 rule mem).solid) others]
      · exact onward.trans first later

theorem rewritten_eq_self_iff {further : Text → Text → Prop} (onward : Text.Onward further)
    {rules : List (Rule Pattern)} (advances : ∀ rule ∈ rules, rule.Advances further) (text : Text) :
    rewritten rules text = text ↔ ∀ rule ∈ rules, rule.Idle text := by
  refine ⟨fun same => ?_, rewritten_of_idle fun rule mem => (advances rule mem).solid⟩
  rcases idle_or_further onward advances text with idle | moved
  · exact idle
  · rw [same] at moved
    exact absurd moved (onward.irrefl text)

end RuleGroup

end Codemod
