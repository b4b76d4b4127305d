import Codemod.Proofs.Shapes
import Codemod.Proofs.WrittenRules

/-!
# Calls by a plain scan

What the callback rules find is found by a scan that goes through a call once:
each run of blanks is taken as a whole, and so is each name (`callShape`). The
scan writes the type as it is, whatever it looks like. The rules make the edits
of the scan (`read_and_edits_group`).
-/

namespace Codemod

namespace Text

theorem isWhiteSpace_of_isWord {c : Char} (word : isWord c = true) : isWhiteSpace c = false := by
  have apart : ∀ blank ∈ whiteSpaceRanges, ∀ range ∈ wordRanges,
      blank.2 < range.1 ∨ range.2 < blank.1 := by decide +kernel
  refine Bool.eq_false_iff.mpr fun space => ?_
  obtain ⟨range, mem, low, high⟩ := exists_of_inRanges word
  obtain ⟨blank, mem', low', high'⟩ := exists_of_inRanges space
  have := apart blank mem' range mem
  omega

end Text

namespace CallbackRules

open Pattern
open Text (Blank Stops stops_cons skipBlanks upTo dropPrefix?_eq_some)

-- ---------------------------------------------------------------------------
-- The scan
-- ---------------------------------------------------------------------------

def scanName (type text : Text) : Option (Text × Text) :=
  let name := text.takeWhile Text.isWord
  if name = [] then none else some (name ++ ": ".toList ++ type, text.dropWhile Text.isWord)

def scanPair (type text : Text) : Option (Text × Text) := do
  let (first, text) ← scanName type text
  let text ← text.dropPrefix? [',']
  let (second, text) ← scanName type (skipBlanks text)
  return (first ++ ", ".toList ++ second, text)

/-- The text behind the parenthesis that opens the parameter list, with the mark of an asynchronous
callback before it. -/
def afterMark (isAsync : Bool) (text : Text) : Option Text := do
  let rest ← if isAsync then (skipBlanks text).dropPrefix? "async".toList else some text
  (skipBlanks rest).dropPrefix? ['(']

/-- A call up to the end of its parameter list, and the same call with types. -/
def callShape (name : String) (isAsync : Bool) (scan : Text → Option (Text × Text)) : Shape :=
  fun text => do
    let rest ← text.dropPrefix? name.toList
    let rest ← (skipBlanks rest).dropPrefix? ['(']
    let rest ← afterMark isAsync rest
    let (typed, rest) ← scan (skipBlanks rest)
    let rest ← (skipBlanks rest).dropPrefix? [')']
    let start := name.toList ++ (if isAsync then "(async (" else "((").toList
    return (upTo rest text, start ++ typed ++ [')'])

-- ---------------------------------------------------------------------------
-- Parameter lists
-- ---------------------------------------------------------------------------

/-- A scan takes the lists in the relation, and writes them as the relation says. -/
structure Scans (scan : Text → Option (Text × Text)) (lists : (bare typed : Text) → Prop) :
    Prop where
  sound {text typed rest : Text} : scan text = some (typed, rest) →
    ∃ bare, lists bare typed ∧ text = bare ++ rest
  complete {bare typed rest : Text} : lists bare typed → Stops Text.isWord rest →
    scan (bare ++ rest) = some (typed, rest)
  starts {bare typed : Text} (rest : Text) : lists bare typed →
    Stops Text.isWhiteSpace (bare ++ rest)

theorem stops_of_blank {blank rest : Text} (isBlank : Blank blank)
    (stops : Stops Text.isWord rest) : Stops Text.isWord (blank ++ rest) := by
  cases blank with
  | nil => exact stops
  | cons c more =>
    refine stops_cons (Bool.eq_false_iff.mpr fun word => ?_)
    exact Bool.false_ne_true ((Text.isWhiteSpace_of_isWord word).symm.trans
      (isBlank c List.mem_cons_self))

theorem Word.stops {word : Text} (isWord : Word word) (rest : Text) :
    Stops Text.isWhiteSpace (word ++ rest) := by
  obtain ⟨c, more, rfl⟩ := List.exists_cons_of_ne_nil isWord.1
  exact stops_cons (Text.isWhiteSpace_of_isWord (isWord.2 c List.mem_cons_self))

theorem scans_oneName (type : Text) : Scans (scanName type) (OneName type) where
  sound {text typed rest} found := by
    simp only [scanName] at found
    split at found
    next => cases found
    next ne =>
      cases found
      exact ⟨text.takeWhile Text.isWord, ⟨⟨ne, fun c mem => List.mem_takeWhile_imp mem⟩, rfl⟩,
        List.takeWhile_append_dropWhile.symm⟩
  complete {bare typed rest} list stops := by
    obtain ⟨isWord, rfl⟩ := list
    simp [scanName, Text.takeWhile_append isWord.2 stops, Text.dropWhile_append isWord.2 stops,
      isWord.1]
  starts rest list := list.1.stops rest

theorem scans_twoNames (type : Text) : Scans (scanPair type) (TwoNames type) where
  sound {text typed rest} found := by
    simp only [scanPair, Option.bind_eq_bind, Option.bind_eq_some_iff, dropPrefix?_eq_some,
      Prod.exists, Option.pure_def, Option.some.injEq, Prod.mk.injEq] at found
    obtain ⟨_, _, one, behind, rfl, _, _, two, rfl, rfl⟩ := found
    obtain ⟨first, ⟨isWord, rfl⟩, rfl⟩ := (scans_oneName type).sound one
    obtain ⟨second, ⟨isWord', rfl⟩, split'⟩ := (scans_oneName type).sound two
    obtain ⟨blank, isBlank, split⟩ := Text.exists_blank behind
    refine ⟨_, ⟨first, blank, second, isWord, isBlank, isWord', rfl, rfl⟩, ?_⟩
    rw [split, split']
    simp
  complete {bare typed rest} list stops := by
    obtain ⟨first, blank, second, isWord, isBlank, isWord', rfl, rfl⟩ := list
    have comma : Stops Text.isWord (',' :: (blank ++ (second ++ rest))) :=
      stops_cons (by decide +kernel)
    have one := (scans_oneName type).complete ⟨isWord, rfl⟩ comma
    have two := (scans_oneName type).complete ⟨isWord', rfl⟩ stops
    have skipped := Text.skipBlanks_append isBlank (isWord'.stops rest)
    have whole : first ++ ',' :: blank ++ second ++ rest =
        first ++ ',' :: (blank ++ (second ++ rest)) := by simp
    simp only [scanPair, whole, one, Option.bind_eq_bind, Option.bind_some,
      dropPrefix?_eq_some.mpr (List.singleton_append).symm, skipped, two, Option.pure_def]
  starts rest list := by
    obtain ⟨first, blank, second, isWord, -, -, rfl, -⟩ := list
    simpa using isWord.stops (',' :: blank ++ second ++ rest)

-- ---------------------------------------------------------------------------
-- Calls
-- ---------------------------------------------------------------------------

theorem stops_parenthesis {c : Char} (known : c = '(' ∨ c = ')') (rest : Text) :
    Stops Text.isWhiteSpace (c :: rest) ∧ Stops Text.isWord (c :: rest) := by
  rcases known with rfl | rfl <;> exact ⟨stops_cons (by decide), stops_cons (by decide +kernel)⟩

theorem afterMark_eq_some {isAsync : Bool} {text rest : Text} :
    afterMark isAsync text = some rest ↔
      ∃ blank mark, Blank blank ∧ Marked isAsync mark ∧ text = blank ++ mark ++ '(' :: rest := by
  have opens (rest : Text) := (stops_parenthesis (.inl rfl) rest).1
  cases isAsync with
  | false =>
    simp only [afterMark, Bool.false_eq_true, if_false, Option.bind_eq_bind, Option.bind_some,
      dropPrefix?_eq_some]
    constructor
    · intro found
      obtain ⟨blank, isBlank, split⟩ := text.exists_blank
      exact ⟨blank, [], isBlank, rfl, by rw [split, found]; simp⟩
    · rintro ⟨blank, _, isBlank, rfl, rfl⟩
      simpa using Text.skipBlanks_append isBlank (opens rest)
  | true =>
    simp only [afterMark, if_true, Option.bind_eq_bind, Option.bind_eq_some_iff,
      dropPrefix?_eq_some]
    constructor
    · rintro ⟨behind, word, found⟩
      obtain ⟨blank, isBlank, split⟩ := text.exists_blank
      obtain ⟨later, isBlank', split'⟩ := Text.exists_blank behind
      refine ⟨blank, _, isBlank, ⟨later, isBlank', rfl⟩, ?_⟩
      rw [split, word, split', found]
      simp
    · rintro ⟨blank, _, isBlank, ⟨later, isBlank', rfl⟩, rfl⟩
      have async : Stops Text.isWhiteSpace ("async".toList ++ (later ++ '(' :: rest)) :=
        stops_cons (by decide : Text.isWhiteSpace 'a' = false)
      refine ⟨later ++ '(' :: rest, ?_, Text.skipBlanks_append isBlank' (opens rest)⟩
      rw [← Text.skipBlanks_append isBlank async]
      simp

theorem callShape_eq_some {name : String} {isAsync : Bool} {scan : Text → Option (Text × Text)}
    {lists : Text → Text → Prop} (scans : Scans scan lists) {text old new : Text} :
    callShape name isAsync scan text = some (old, new) ↔
      Retyped name isAsync lists old new ∧ old <+: text := by
  simp only [callShape, Option.bind_eq_bind, Option.bind_eq_some_iff, dropPrefix?_eq_some,
    Prod.exists, Option.pure_def, Option.some.injEq, Prod.mk.injEq, afterMark_eq_some]
  constructor
  · rintro ⟨behind, rfl, start, opens, inside, ⟨second, mark, h₂, h₃, rfl⟩, typed, behind', found,
      rest, closes, rfl, rfl⟩
    obtain ⟨first, h₁, split₁⟩ := Text.exists_blank behind
    obtain ⟨before, h₄, split₂⟩ := Text.exists_blank inside
    obtain ⟨after, h₅, split₃⟩ := Text.exists_blank behind'
    obtain ⟨bare, list, split₄⟩ := scans.sound found
    have whole : name.toList ++ behind = name.toList ++ first ++ '(' :: second ++ mark ++
        '(' :: (before ++ bare ++ after) ++ [')'] ++ rest := by
      rw [split₁, opens, split₂, split₄, split₃, closes]
      simp
    rw [whole, Text.upTo_append]
    exact ⟨.mk h₁ h₂ h₃ h₄ list h₅, List.prefix_append ..⟩
  · rintro ⟨@⟨first, second, mark, before, bare, after, typed, h₁, h₂, h₃, h₄, list, h₅⟩, rest, rfl⟩
    -- what follows a run of blanks or a name is of another kind, so the scan takes the same runs
    have opens (rest : Text) := (stops_parenthesis (.inl rfl) rest).1
    have closes := stops_parenthesis (.inr rfl) rest
    have ends := stops_of_blank h₅ closes.2
    let inside := before ++ (bare ++ (after ++ ')' :: rest))
    have whole : name.toList ++ first ++ '(' :: second ++ mark ++
        '(' :: (before ++ bare ++ after) ++ [')'] ++ rest =
          name.toList ++ (first ++ '(' :: (second ++ mark ++ '(' :: inside)) := by
      simp [inside]
    refine ⟨_, whole, _, Text.skipBlanks_append h₁ (opens _), inside, ⟨second, mark, h₂, h₃, rfl⟩,
      typed, after ++ ')' :: rest, ?_, rest, Text.skipBlanks_append h₅ closes.1,
      Text.upTo_append _ rest, rfl⟩
    rw [Text.skipBlanks_append h₄ (scans.starts _ list)]
    exact scans.complete list ends

-- ---------------------------------------------------------------------------
-- The rules
-- ---------------------------------------------------------------------------

theorem reads_call {name : String} {isAsync : Bool} {parameters : List Pattern}
    {first second mark before list after : Text} {groups : List (Nat × Text)} (h₁ : Blank first)
    (h₂ : Blank second) (h₃ : Marked isAsync mark) (h₄ : Blank before)
    (reads : (inOrder parameters).Reads list groups) (h₅ : Blank after) :
    (call name isAsync parameters).Reads (name.toList ++ first ++ '(' :: second ++ mark ++
      '(' :: (before ++ list ++ after) ++ [')']) groups := by
  have marked :
      (inOrder (if isAsync then [literal "async".toList, blanks] else [])).Reads mark [] := by
    cases isAsync with
    | false => exact reads_inOrder_nil.mpr ⟨h₃, rfl⟩
    | true =>
      obtain ⟨blank, isBlank, rfl⟩ := h₃
      simp only [if_true, blanks, reads_inOrder_literal, reads_inOrder_anyNumber, reads_inOrder_nil]
      exact ⟨blank, rfl, blank, [], by simp, isBlank, rfl, trivial⟩
  simp only [call, List.append_assoc, List.cons_append, List.nil_append, blanks, openParenthesis,
    closeParenthesis, reads_inOrder_literal, reads_inOrder_single, reads_inOrder_anyNumber,
    reads_inOrder_append, reads_inOrder_nil]
  exact ⟨_, rfl, first, _, rfl, h₁, _, rfl, second, _, rfl, h₂, mark, _, [], groups, rfl, by simp,
    marked, _, rfl, before, _, rfl, h₄, list, _, groups, [], rfl, rfl, reads, after, _, rfl, h₅, [],
    rfl, rfl, rfl⟩

theorem reads_word (index : Nat) {rest : List Pattern} {word after : Text}
    {later : List (Nat × Text)} (isWord : Word word) (reads : (inOrder rest).Reads after later) :
    (inOrder (parameter index :: rest)).Reads (word ++ after) (later ++ [(index, word)]) :=
  reads_inOrder_cons.mpr ⟨word, after, _, later, rfl, rfl,
    reads_group.mpr ⟨[], reads_atLeastOne.mpr ⟨isWord, rfl⟩, rfl⟩, reads⟩

theorem turns_singleRule {label name : String} {isAsync : Bool} {type old new : Text} :
    (singleRule label name isAsync type).Turns old new ↔
      Retyped name isAsync (OneName type) old new := by
  refine ⟨retyped_of_singleRule, ?_⟩
  rintro ⟨h₁, h₂, h₃, h₄, ⟨isWord, rfl⟩, h₅⟩
  have word := reads_word 1 isWord (reads_inOrder_nil.mpr ⟨rfl, rfl⟩)
  rw [List.append_nil] at word
  refine ⟨_, reads_call h₁ h₂ h₃ h₄ word h₅, ?_⟩
  simp [Template.expand, typedCall, typed, Match.group]

theorem turns_sortRule {type old new : Text} :
    (sortRule type).Turns old new ↔ Retyped ".sort" false (TwoNames type) old new := by
  refine ⟨retyped_of_sortRule, ?_⟩
  rintro ⟨h₁, h₂, h₃, h₄, ⟨word, between, other, isWord, h₆, isWord', rfl, rfl⟩, h₅⟩
  have second := reads_word 2 isWord' (reads_inOrder_nil.mpr ⟨rfl, rfl⟩)
  have tail : (inOrder [one (.single ','), blanks, parameter 2]).Reads (',' :: (between ++ _)) _ :=
    reads_inOrder_single.mpr ⟨_, rfl, reads_inOrder_anyNumber.mpr ⟨between, _, rfl, h₆, second⟩⟩
  have pair := reads_word 1 isWord tail
  refine ⟨_, reads_call h₁ h₂ h₃ h₄ (by simpa using pair) h₅, ?_⟩
  simp [Template.expand, typedCall, typed, Match.group, List.lookup_cons]

theorem Turned.colon {type old new : Text} (turned : Turned type old new) :
    ':' ∉ old ∧ ':' ∈ new := by
  constructor
  · obtain ⟨head, name, before, list⟩ := turned.bareCall
    have colon {text : Text} (quiet : Quiet text) : ':' ∉ text := quiet.not_mem (by decide)
    rcases head with rfl | rfl <;> simp [colon name, colon before, colon list]
  · obtain ⟨-, -, -, -, -⟩ := turned.typedCall
    simp

theorem Turned.ne {type old new : Text} (turned : Turned type old new) : new ≠ old := by
  rintro rfl
  exact turned.colon.1 turned.colon.2

theorem follows_callShape {rule : Rule Pattern} {name : String} {isAsync : Bool} {type : Text}
    {scan : Text → Option (Text × Text)} {lists : Text → Text → Prop} (solid : rule.Solid)
    (scans : Scans scan lists)
    (turned : ∀ {old new}, rule.Turns old new → Turned type old new)
    (turns : ∀ {old new}, rule.Turns old new ↔ Retyped name isAsync lists old new) :
    rule.Follows (callShape name isAsync scan) := by
  refine Rule.follows_of_turns solid (fun turn => (turned turn).ne) ?_ ?_
  · intro offset after piece found
    have retyped := turns.mp (Rule.turns_of_found solid found).2
    exact (callShape_eq_some scans).mpr ⟨retyped, List.prefix_append ..⟩
  · intro text old new shaped
    obtain ⟨retyped, isPrefix⟩ := (callShape_eq_some scans).mp shaped
    exact ⟨isPrefix, turns.mpr retyped⟩

theorem follows_singleRule {name : String} (known : name ∈ methods) (label : String)
    (isAsync : Bool) (type : Text) :
    (singleRule label name isAsync type).Follows (callShape name isAsync (scanName type)) :=
  follows_callShape (solid_call (by simp [plain_parameter])) (scans_oneName type)
    (turned_of_singleRule known) turns_singleRule

theorem follows_sortRule (type : Text) :
    (sortRule type).Follows (callShape ".sort" false (scanPair type)) :=
  follows_callShape (solid_call (by simp [plain_parameter, plain_blanks, Plain.one]))
    (scans_twoNames type) turned_of_sortRule turns_sortRule

def callScans (type source : Text) : List (List Edit) :=
  (callShape "$transaction" true (scanName type)).edits (transactionRule type).name source ::
    callbacks.map (fun callback =>
      (callShape ("." ++ callback.method) callback.isAsync (scanName type)).edits
        (callbackRule type callback).name source) ++
    [(callShape ".sort" false (scanPair type)).edits (sortRule type).name source]

/-- The rules for a type can be read from their written form, whatever the type looks like, and each
of them makes the edits of a plain scan. -/
theorem read_and_edits_group (type : String) :
    (∃ written, read type = .ok written ∧ written.ActsAs (group type)) ∧
      ∀ source, (group type).rules.map (·.edits source) = callScans type.toList source := by
  refine ⟨read_eq_ok type, fun source => ?_⟩
  have transaction := follows_singleRule (by decide : "$transaction" ∈ methods)
    "$transaction(async (x))" true type.toList
  have singles : ∀ callback ∈ callbacks, (callbackRule type.toList callback).edits source =
      (callShape ("." ++ callback.method) callback.isAsync (scanName type.toList)).edits
        (callbackRule type.toList callback).name source := fun callback mem =>
    (follows_singleRule (mem_methods mem) _ callback.isAsync type.toList).edits_eq source
  rw [group, callScans, List.map_append, List.map_cons, List.map_map]
  congr 2
  · exact transaction.edits_eq source
  · exact List.map_congr_left singles
  · exact congrArg (fun edits => [edits]) ((follows_sortRule type.toList).edits_eq source)

example : (callScans "$\x7b1\x7d$$".toList "x.sort ((a,\n b ))".toList).flatten =
    [⟨1, 16, ".sort((a: $\x7b1\x7d$$, b: $\x7b1\x7d$$)".toList, some ".sort((a, b))"⟩] := by
  decide +kernel

end CallbackRules

end Codemod
